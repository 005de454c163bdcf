import WorkflowEngine.Proofs.Node.Joining
import WorkflowEngine.Proofs.Node.Results

/-!
# Halting

An output that halts ends everything around the node that gave it except what runs in parallel, and
comes out at the top. Main statement: every visit keeps the order of halting outputs, and its output
is the result of those given during it.
-/

namespace WorkflowEngine

open TaskAccount

namespace Node

/-- The output of a visit of a node, which was entered once. -/
structure Visited (n : Node) (t : List Happening) (o : StepOutput) : Prop where
  result : Result [n] t o
  once : t.countP (Happening.enters n.name) = 1

theorem Below.countP_enters {n : Node} {t : List Happening} (hn : (names [n]).Nodup)
    (h : Below n t) : t.countP (Happening.enters n.name) = 0 := by
  rw [names_singleton] at hn
  refine List.countP_eq_zero.2 fun a ha hx => ?_
  cases a with
  | entered y input =>
    obtain rfl : y = n.name := by simpa [Happening.enters] using hx
    exact (List.nodup_cons.1 hn).1 (h.entered _ _ ha)
  | began base | called y input | gave y o | ended fault run final => cases hx

/-- A visit around work whose output would be a result. -/
theorem says_around {n : Node} {input : StepInput} {A : TaskAccount (StepOutput × Course)}
    (hn : (names [n]).Nodup) (hA : A.Says (Below n) fun t p => ∀ o, n.Dates p.1 o →
      Result [n] (.entered n.name input :: (t ++ [.gave n.name o])) o) :
    (n.Around input A).Says (Order [n]) fun t p => Visited n t p.1 := by
  intro t r ht
  cases ht with
  | idle => exact ⟨.nil, fun _ hr => nomatch hr⟩
  | cancelled => exact ⟨.nil, fun _ hr => nomatch hr⟩
  | under h => exact ⟨(hA _ _ h).1.order.entered (name_mem_names n) input, fun _ hr => nomatch hr⟩
  | fault h => exact ⟨(hA _ _ h).1.order.entered (name_mem_names n) input, fun _ hr => nomatch hr⟩
  | @gave t o o' c h hd _ hr =>
    obtain ⟨hbelow, hv⟩ := hA _ _ h
    refine ⟨(hbelow.order.gave (name_mem_names n) o').entered (name_mem_names n) input,
      fun p hp => ?_⟩
    cases hr _ hp
    refine ⟨hv _ rfl o' hd, ?_⟩
    rw [List.countP_cons, List.countP_append, hbelow.countP_enters hn]
    simp [Happening.enters]

/-! ## Groups -/

theorem says_group {n : Node} {name : String} {kind : ExecutorKind} {input : StepInput}
    {A : TaskAccount (Sequence × List Course)} (hn : (names [n]).Nodup)
    (hl : ∀ x, n.loopsOver x = false)
    (hA : A.Says (Order n.children) fun t p => SequenceResult n.children t p.1) :
    (visitGroup name kind A).Says (Below n) fun t p => ∀ o, n.Dates p.1 o →
      Result [n] (.entered n.name input :: (t ++ [.gave n.name o])) o := by
  refine .map (hA.mono (fun t ht => .of_order ht) fun t p ht hp o hd => ?_)
  refine Result.around hn (.of_order ht) ?_ hd
  obtain ⟨q, visits⟩ := p
  have hends := hp.ends
  cases q with
  | halted o =>
    have hw : Within n.children [n] := .children hl
    exact (hends.1.within (t := []) hw hn ht .nil fun _ h => nomatch h)
  | completed o next produced => exact .of_calm hends.1 hends.2
  | empty next => exact .of_calm hends rfl

theorem says_nil (input : StepInput) :
    (visitSequence [] input).Says (Order []) fun t p => SequenceResult [] t p.1 :=
  .ret .nil ⟨Calm.nil, fun _ _ h => nomatch h⟩

theorem says_cons {n : Node} {rest : List Node} {input : StepInput}
    (hn : (names (n :: rest)).Nodup)
    (hv : (n.Around input (visitWork input n)).Says (Order [n]) fun t p => Visited n t p.1)
    (hs : ∀ input, (visitSequence rest input).Says (Order rest)
      fun t p => SequenceResult rest t p.1) :
    (visitSequence (n :: rest) input).Says (Order (n :: rest))
      fun t p => SequenceResult (n :: rest) t p.1 := by
  have hhead : Within [n] (n :: rest) := .head hn
  have htail : Within rest (n :: rest) := .tail hn
  rw [names_cons] at hn
  obtain ⟨-, -, hne⟩ := List.nodup_append.1 hn
  rw [← names_cons] at hn
  unfold visitSequence
  refine .bind hv (fun t ht => ht.mono fun _ => hhead.mem) fun t p ht hp => ?_
  obtain ⟨o, c⟩ := p
  have ht' : Order (n :: rest) (t ++ []) := by simpa using ht.mono fun _ => hhead.mem
  have hfirst {u : List Happening} (hu : Order rest u) (m : Node) (l : List Node)
      (hm : n :: rest = m :: l) : (t ++ u).countP (Happening.enters m.name) = 1 := by
    cases hm
    rw [List.countP_append, hp.once, countP_enters_eq_zero fun a ha y hy hyx =>
      hne n.name (name_mem_names n) y (hu.node a ha y hy) hyx.symm]
  dsimp only
  split
  · rename_i hh
    have hresult : Result (n :: rest) t o := hp.result.within (t := []) hhead hn ht .nil
      fun _ h => nomatch h
    refine .ret ht' ⟨?_, hfirst .nil⟩
    simpa using ⟨hresult, hh⟩
  · rename_i hh
    -- Nothing halted so far, so that all that halts does so in the rest.
    have hc : Calm t := hp.result.calm (by simpa using hh)
    refine .map ((hs _).mono (fun u hu => ?_) fun u q hu hq => ⟨?_, hfirst hu⟩)
    · exact (ht.mono fun _ => hhead.mem).append hc (hu.mono fun _ => htail.mem)
    · have hends := hq.ends
      obtain ⟨q, visits⟩ := q
      cases q with
      | halted o' =>
        refine ⟨hends.1.within htail hn hu hc fun a ha x hx hx' => ?_, hends.2⟩
        exact hne x (ht.node a ha x hx) x hx' rfl
      | completed o' next produced => exact ⟨hc.append hends.1, hends.2⟩
      | empty next => exact ⟨hc.append hends, by simpa using hh⟩

end Node

namespace Loop

open Node

variable {name : String} {ends : Option (List StepOutput → Except String Bool)} {nodes : List Node}
  {body : StepInput → TaskAccount (Sequence × List Course)}
  (hb : ∀ input, (body input).Says (Order nodes) fun t p => SequenceResult nodes t p.1)

include hb

private theorem says_round {done : List StepOutput} {input : StepInput}
    {otherwise : StepOutput → List StepOutput → StepInput → TaskAccount (LoopResult × List Course)}
    (ho : ∀ output done' next, done'.length = done.length + 1 → output.halts = false →
      (otherwise output done' next).Says (Order nodes)
        fun u p => Iterated nodes (done.length + 1) u p.1.output) :
    (round name ends body done input otherwise).Says (Order nodes)
      fun t p => Iterated nodes done.length t p.1.output := by
  refine .unlessCancelled (.bind (hb input) (fun t ht => ht) fun t p ht hp => ?_) .nil
  obtain ⟨q, visits⟩ := p
  obtain ⟨hends, hfirst⟩ := hp
  have h₀ : Order nodes (t ++ []) := by simpa using ht
  have hconclude (output : StepOutput) (next : StepInput) (hc : Calm t)
      (hh : output.halts = false) : (round.conclude name ends done otherwise output next visits).Says
        (fun u => Order nodes (t ++ u))
        fun u p => Iterated nodes done.length (t ++ u) p.1.output := by
    refine .given h₀ fun converged _ => ?_
    cases converged with
    | true => exact .ret h₀ (.calm (by simpa using hc) hh)
    | false =>
      refine .map ((ho output _ next (by simp) hh).mono (fun u hu => ht.append hc hu)
        fun u p _ hu => ?_)
      exact hu.next hc hfirst
  cases q with
  | halted output =>
    have hsplit : t ++ [] = [] ++ t := List.append_nil t
    refine .ret h₀ (.interrupted hsplit .nil hends.1 hends.2 rfl
      fun n rest hn => ?_)
    simp [hfirst n rest hn]
  | completed output next produced => exact hconclude output next hends.1 hends.2
  | empty next => exact hconclude _ next hends rfl

theorem says_rounds (left : Nat) (done : List StepOutput) (input : StepInput) :
    (rounds name ends body left done input).Says (Order nodes)
      fun t p => Iterated nodes done.length t p.1.output := by
  induction left generalizing done input with
  | zero => exact says_round hb fun output done' next _ hh => .ret .nil (.calm .nil hh)
  | succ left ih => exact says_round hb fun output done' next hlen _ => hlen ▸ ih done' next

theorem says_visit (maxIterations : Nat) (input : StepInput) :
    (visit name maxIterations ends body input).Says (Order nodes)
      fun t p => Iterated nodes 0 t p.1.output := by
  cases maxIterations with
  | zero => exact .ofResult .nil fun _ h => nomatch h
  | succ left => exact says_rounds hb left [] input

end Loop

namespace Node

/-! ## Parallel children -/

/-- The history of some children of a parallel node. -/
structure Together (nodes : List Node) (t : List Happening) : Prop where
  node : ∀ h ∈ t, ∀ x, h.node? = some x → x ∈ names nodes
  after : ∀ name description children, (∀ c ∈ nodes, c ∈ children) → (names children).Nodup →
    t.Pairwise (Permits [parallel name description children])

/-- The results of some children of a parallel node. -/
structure Joined (nodes : List Node) (t : List Happening)
    (results : List (Except Fault (StepOutput × Course))) : Prop where
  length : results.length = nodes.length
  halts : ∀ x p, .gave x p ∈ t → p.halts → ∃ r ∈ results, ∀ o c, r = .ok (o, c) → o.halts
  fails : ∀ x p, .gave x p ∈ t → p.success = false →
    ∃ r ∈ results, ∀ o c, r = .ok (o, c) → o.success = false
  cause : ∀ o c, .ok (o, c) ∈ results → o.success = false →
    ∃ s p, step s ∈ descendants nodes ∧ .gave s.name p ∈ t ∧ p.success = false

private theorem Together.cons {c : Node} {rest : List Node} {t u v : List Happening}
    (hn : (names (c :: rest)).Nodup) (hu : Order [c] u) (hv : Together rest v)
    (hi : Interleave u v t) : Together (c :: rest) t := by
  rw [names_cons] at hn
  obtain ⟨-, -, hne⟩ := List.nodup_append.1 hn
  refine ⟨fun a ha x hx => ?_, fun name description children hsub hchildren => ?_⟩
  · rw [names_cons]
    exact (hi.mem_iff.1 ha).elim (fun ha => List.mem_append_left _ (hu.node a ha x hx))
      fun ha => List.mem_append_right _ (hv.node a ha x hx)
  · have hc : c ∈ children := hsub c (by simp)
    have hrest : ∀ d ∈ rest, d ∈ children := fun d hd => hsub d (by simp [hd])
    have hcd (d : Node) (hd : d ∈ rest) : c.name ≠ d.name :=
      hne _ (name_mem_names c) _ (mem_names_of_mem hd (name_mem_names d))
    have hpart : Order [parallel name description children] u := hu.mono fun m hm =>
      mem_descendants_children (mem_descendants_of_mem hc hm)
    refine hi.pairwise hpart.after (hv.after name description children hrest hchildren)
      fun a ha b hb => ⟨?_, ?_⟩
    · rintro x o y rfl - hy
      obtain ⟨d, hd, hyd⟩ := exists_mem_of_mem_names
        (hv.node b hb y (Happening.node?_of_starts? hy))
      exact beside_of_children hc (hrest d hd) (hcd d hd) (hu.node _ ha x rfl) hyd
    · rintro x o y rfl - hy
      obtain ⟨d, hd, hxd⟩ := exists_mem_of_mem_names (hv.node _ hb x rfl)
      exact beside_of_children (hrest d hd) hc (hcd d hd).symm hxd
        (hu.node a ha y (Happening.node?_of_starts? hy))

private theorem Joined.cons {c : Node} {rest : List Node} {t u v : List Happening}
    {r : Except Fault (StepOutput × Course)} {rs : List (Except Fault (StepOutput × Course))}
    (hr : ∀ o course, r = .ok (o, course) → Result [c] u o) (hrs : Joined rest v rs)
    (hi : Interleave u v t) : Joined (c :: rest) t (r :: rs) where
  length := by simp [hrs.length]
  halts := fun x p hp hh => by
    rcases hi.mem_iff.1 hp with hp | hp
    · exact ⟨r, by simp, fun o course ho => (hr o course ho).halts x p hp hh⟩
    · obtain ⟨r', hr', ho⟩ := hrs.halts x p hp hh
      exact ⟨r', by simp [hr'], ho⟩
  fails := fun x p hp hf => by
    rcases hi.mem_iff.1 hp with hp | hp
    · exact ⟨r, by simp, fun o course ho => (hr o course ho).fails x p hp hf⟩
    · obtain ⟨r', hr', ho⟩ := hrs.fails x p hp hf
      exact ⟨r', by simp [hr'], ho⟩
  cause := fun o course ho hf => by
    rw [descendants_cons]
    rcases List.mem_cons.1 ho with ho | ho
    · obtain ⟨s, p, hs, hp, hpf⟩ := (hr o course ho.symm).cause hf
      exact ⟨s, p, List.mem_append_left _ hs, hi.mem_iff.2 (.inl hp), hpf⟩
    · obtain ⟨s, p, hs, hp, hpf⟩ := hrs.cause o course ho hf
      exact ⟨s, p, List.mem_append_right _ hs, hi.mem_iff.2 (.inr hp), hpf⟩

/-- The output of a parallel node halts when one of its children does and fails when one of them
fails. -/
theorem Joined.result {name : String} {description : Option String} {children : List Node}
    {t : List Happening} {rs : List (Except Fault (StepOutput × Course))} {o : StepOutput}
    (hn : (names [parallel name description children]).Nodup) (ht : Together children t)
    (h : Joined children t rs)
    (ho : Join.result name (children.map Node.name) (rs.map (Except.map Prod.fst)) = .ok o) :
    Result [parallel name description children] t o := by
  rw [names_singleton] at hn
  have hchildren : (children.map Node.name).Nodup := nodup_map_name (List.nodup_cons.1 hn).2
  unfold Join.result at ho
  split at ho
  · cases ho
  rename_i hnone
  obtain rfl := Except.ok.inj ho
  obtain ⟨os, hos⟩ := Join.eq_map_ok_of_fault? hnone
  have hlen : os.length = (children.map Node.name).length := by
    have hlengths := congrArg List.length hos
    simpa [h.length] using hlengths.symm
  have hvalues {o : StepOutput} :
      o ∈ (Join.outputs (children.map Node.name) (rs.map (Except.map Prod.fst))).values ↔ o ∈ os := by
    rw [hos]
    exact Join.mem_values_outputs hchildren hlen
  have hall (r : Except Fault (StepOutput × Course)) (hr : r ∈ rs) :
      ∃ o c, r = .ok (o, c) ∧ o ∈ os := by
    have hmem : r.map Prod.fst ∈ os.map Except.ok := hos ▸ List.mem_map_of_mem hr
    obtain ⟨o, ho, heq⟩ := List.mem_map.1 hmem
    rcases r with fault | ⟨o', c⟩
    · cases heq
    · cases heq
      exact ⟨_, c, rfl, ho⟩
  have hfailed {o : StepOutput} (ho : o ∈ os) (hf : o.success = false) :
      (Join.outputs (children.map Node.name) (rs.map (Except.map Prod.fst))).values.all
        StepOutput.success = false :=
    List.all_eq_false.2 ⟨o, hvalues.2 ho, by simp [hf]⟩
  constructor
  case halts =>
    intro x p hp hh
    obtain ⟨r, hr, hro⟩ := h.halts x p hp hh
    obtain ⟨o, c, rfl, ho⟩ := hall r hr
    have hho := hro o c rfl
    simp only [StepOutput.halts, Bool.or_eq_true, Bool.not_eq_true'] at hho
    rcases hho with hstop | hf
    · have hany : (Join.outputs (children.map Node.name)
          (rs.map (Except.map Prod.fst))).values.any StepOutput.stop = true :=
        List.any_eq_true.2 ⟨o, hvalues.2 ho, hstop⟩
      simp [Join.output, StepOutput.halts, hany]
    · simp only [Join.output, StepOutput.halts, hfailed ho hf, Bool.not_false, Bool.or_true]
  case fails =>
    intro x p hp hf
    obtain ⟨r, hr, hro⟩ := h.fails x p hp hf
    obtain ⟨o, c, rfl, ho⟩ := hall r hr
    exact hfailed ho (hro o c rfl)
  case cause =>
    intro hf
    obtain ⟨o, ho, hof⟩ := List.all_eq_false.1 hf
    have hmem : Except.ok o ∈ rs.map (Except.map Prod.fst) :=
      hos ▸ List.mem_map_of_mem (hvalues.1 ho)
    obtain ⟨r, hr, heq⟩ := List.mem_map.1 hmem
    obtain ⟨o', c, rfl, -⟩ := hall r hr
    cases heq
    obtain ⟨s, p, hs, hp, hpf⟩ := h.cause _ c hr (by simpa using hof)
    exact ⟨s, p, mem_descendants_children hs, hp, hpf⟩
  case carries =>
    intro s p _ hp _ hpar
    exact absurd ⟨name, description, children, by simp [descendants_singleton],
      ht.node _ hp _ rfl⟩ hpar

/-! ## The tree -/

/-- What is said of the work of a node: whatever duration its output gets, it will be the result of
the visit. -/
private abbrev Works (n : Node) (A : TaskAccount (StepOutput × Course)) (input : StepInput) :
    Prop :=
  A.Says (Below n) fun t p => ∀ o, n.Dates p.1 o →
    Result [n] (.entered n.name input :: (t ++ [.gave n.name o])) o

private theorem works_of_result {n : Node} {A : TaskAccount (StepOutput × Course)}
    {input : StepInput} (hn : (names [n]).Nodup)
    (h : A.Says (Below n) fun t p => Result [n] t p.1) : Works n A input :=
  h.mono (fun _ ht => ht) fun _ _ ht hp _ hd => hp.around hn ht hd

private theorem works_step (s : Step) (input : StepInput) :
    Works (step s) (s.calls input) input := by
  rintro t r ⟨⟨k, rfl⟩, hr⟩
  refine ⟨⟨⟨fun a ha x hx => ?_, ?_⟩, fun x i ha => ?_, fun x o ha => ?_⟩, fun p hp o hd => ?_⟩
  · rw [List.eq_of_mem_replicate ha] at hx
    cases hx
    exact name_mem_names (step s)
  · refine List.pairwise_replicate.2 (.inr fun x o y ha => ?_)
    cases ha
  · cases List.eq_of_mem_replicate ha
  · cases List.eq_of_mem_replicate ha
  · rcases hr _ hp with ⟨fault, h, -⟩ | ⟨output, ms, h⟩
    · cases h
    · cases h
      obtain rfl : o = s.stamp output ms := by simpa [Dates, Step.stamp, isLeaf] using hd
      exact Result.leaf s input k _

mutual

private theorem says_work (input : StepInput) : (n : Node) → (names [n]).Nodup →
    Works n (visitWork input n) input
  | .step s, _ => works_step s input
  | .steps name _ children, hn =>
    says_group hn (fun _ => rfl) (says_sequence children (nodup_children hn) input)
  | .condition name _ test children, hn => by
    unfold visitWork
    refine .given (.of_order .nil) fun holds _ => ?_
    split
    · exact says_group hn (fun _ => rfl) (says_sequence children (nodup_children hn) input)
    · refine .ret (.of_order .nil) fun o hd => Result.around hn (.of_order .nil) ?_ hd
      exact .of_calm .nil rfl
  | .loop name _ maxIterations ends children, hn => by
    unfold visitWork
    have hvisit : (Loop.visit name maxIterations ends (visitSequence children) input).Says
        (Order children) fun t p => Iterated children 0 t p.1.output :=
      Loop.says_visit (says_sequence children (nodup_children hn)) maxIterations input
    exact works_of_result hn (.map (hvisit.mono (fun t ht => .of_order ht)
      fun t p ht hp => hp.result hn ht))
  | .parallel name description children, hn => by
    unfold visitWork
    refine works_of_result hn ?_
    rintro t r ⟨q, hq, hr⟩
    obtain ⟨ht, hrs⟩ := says_all input children (nodup_children hn) t q hq
    have horder : Order [parallel name description children] t := by
      refine ⟨fun a ha x hx => names_children_subset (ht.node a ha x hx), ?_⟩
      exact ht.after name description children (fun _ hc => hc) (nodup_children hn)
    refine ⟨⟨horder, fun x i ha => ht.node _ ha x rfl, fun x o ha => ht.node _ ha x rfl⟩,
      fun p hp => ?_⟩
    obtain ⟨rs, rfl, hp⟩ := hr _ hp
    cases hj : Join.result name (children.map Node.name) (rs.map (Except.map Prod.fst)) with
    | error fault =>
      rw [hj] at hp
      cases hp
    | ok output =>
      rw [hj] at hp
      cases hp
      exact (hrs rs rfl).result hn ht hj
  | .router name _ select choices, hn => by
    unfold visitWork
    have hchildren := nodup_children hn
    refine .given (.of_order .nil) fun choice _ => ?_
    refine works_of_result hn ((says_choice input choice.name choices hchildren).mono
      (fun t ht => .of_order ht) fun t p ht hp => ?_)
    exact hp.within (t := []) (.children fun _ => rfl) hn ht .nil fun _ h => nomatch h

theorem says_sequence : (nodes : List Node) → (names nodes).Nodup → (input : StepInput) →
    (visitSequence nodes input).Says (Order nodes) fun t p => SequenceResult nodes t p.1
  | [], _, input => says_nil input
  | n :: rest, hn, input =>
    says_cons hn (says_around ((Within.head hn).nodup hn)
      (says_work input n ((Within.head hn).nodup hn)))
      (says_sequence rest ((Within.tail hn).nodup hn))

private theorem says_all (input : StepInput) : (children : List Node) → (names children).Nodup →
    ∀ t q, Account.together (visitAll input children) t q →
      Together children t ∧ ∀ rs, q = some rs → Joined children t rs
  | [], _, t, q, h => by
    obtain ⟨rfl, hq⟩ := h
    refine ⟨⟨fun _ h => (nomatch h), fun _ _ _ _ _ => .nil⟩, fun rs hrs => ?_⟩
    obtain rfl := hq rs hrs
    exact ⟨rfl, fun _ _ h => (nomatch h), fun _ _ h => (nomatch h), fun _ _ h => nomatch h⟩
  | c :: rest, hn, t, q, h => by
    obtain ⟨u, p, v, q', hc, hrest, hi, hq⟩ := h
    have hn' := (Within.head hn).nodup hn
    obtain ⟨hu, hp⟩ := says_around hn' (says_work input c hn') u p hc
    obtain ⟨hv, hrs⟩ := says_all input rest ((Within.tail hn).nodup hn) v q' hrest
    refine ⟨hv.cons hn hu hi, fun rs hrs' => ?_⟩
    obtain ⟨r, rs', rfl, rfl, rfl⟩ := hq rs hrs'
    refine Joined.cons (fun o course hr => ?_) (hrs rs' rfl) hi
    exact (hp _ (congrArg some hr)).result

theorem says_choice (input : StepInput) (name : String) : (choices : List Node) →
    (names choices).Nodup →
    (visitChoice input name choices).Says (Order choices) fun t p => Result choices t p.1
  | [], _ => .ofResult .nil fun _ h => nomatch h
  | n :: rest, hn => by
    unfold visitChoice
    split
    · have hn' := (Within.head hn).nodup hn
      refine (says_around hn' (says_work input n hn')).mono
        (fun t ht => ht.mono fun _ => (Within.head hn).mem) fun t p ht hp => ?_
      exact hp.result.within (t := []) (.head hn) hn ht .nil fun _ h => nomatch h
    · refine (says_choice input name rest ((Within.tail hn).nodup hn)).mono
        (fun t ht => ht.mono fun _ => (Within.tail hn).mem) fun t p ht hp => ?_
      exact hp.within (t := []) (.tail hn) hn ht .nil fun _ h => nomatch h

end

/-- Every visit keeps the order of halting outputs and has the result of those given during it. -/
theorem says_visit (n : Node) (input : StepInput) (hn : (names [n]).Nodup) :
    (n.visit input).Says (Order [n]) fun t p => Visited n t p.1 :=
  says_around hn (says_work input n hn)

/-- A visit enters its node at the beginning and not again. -/
theorem entered_of_visit {n : Node} {input i : StepInput} {t : List Happening}
    {q : Option (Except Fault (StepOutput × Course))} (hn : (names [n]).Nodup)
    (h : n.visit input t q) (he : .entered n.name i ∈ t) :
    i = input ∧ ∃ u, t = .entered n.name input :: u := by
  have hbelow {u : List Happening} {r : Option (Except Fault (StepOutput × Course))}
      (hu : visitWork input n u r) : .entered n.name i ∉ u := fun hi => by
    have hwork : Below n u := (says_work input n hn u r hu).1
    rw [names_singleton] at hn
    exact (List.nodup_cons.1 hn).1 (hwork.entered _ _ hi)
  cases h with
  | idle | cancelled => cases he
  | under hu | fault hu =>
    rcases List.mem_cons.1 he with he | he
    · cases he
      exact ⟨rfl, _, rfl⟩
    · exact absurd he (hbelow hu)
  | gave hu =>
    rcases List.mem_cons.1 he with he | he
    · cases he
      exact ⟨rfl, _, rfl⟩
    · rcases List.mem_append.1 he with he | he
      · exact absurd he (hbelow hu)
      · cases List.mem_singleton.1 he

/-- The last that a visit tells is the output of its node; every other output is given below. -/
theorem gave_of_visit {n : Node} {input : StepInput} {t : List Happening}
    {q : Option (Except Fault (StepOutput × Course))} (hn : (names [n]).Nodup)
    (h : n.visit input t q) : ∃ u r, t = u ++ r ∧ (∀ y o, .gave y o ∈ u → y ∈ names n.children) ∧
      (r = [] ∨ ∃ o, r = [.gave n.name o]) ∧ ∀ o c, q = some (.ok (o, c)) → r = [.gave n.name o] := by
  have hbelow {u : List Happening} {r : Option (Except Fault (StepOutput × Course))}
      (hu : visitWork input n u r) (y : String) (o : StepOutput)
      (ho : .gave y o ∈ Happening.entered n.name input :: u) : y ∈ names n.children := by
    have hwork : Below n u := (says_work input n hn u r hu).1
    rcases List.mem_cons.1 ho with ho | ho
    · cases ho
    · exact hwork.gave y o ho
  cases h with
  | idle | cancelled =>
    exact ⟨[], [], rfl, fun _ _ ho => absurd ho List.not_mem_nil, .inl rfl, fun _ _ hq => by cases hq⟩
  | under hu | fault hu =>
    exact ⟨_, [], (List.append_nil _).symm, hbelow hu, .inl rfl, fun _ _ hq => by cases hq⟩
  | gave hu hd hr =>
    refine ⟨_, _, rfl, hbelow hu, .inr ⟨_, rfl⟩, fun o c hq => ?_⟩
    cases hr _ hq
    rfl

/-- A visit that ends with a fault tells of outputs below its node only. -/
theorem gave_of_fault {n : Node} {input : StepInput} {t : List Happening} {fault : Fault}
    (hn : (names [n]).Nodup) (h : n.visit input t (some (.error fault))) {y : String}
    {o : StepOutput} (ho : .gave y o ∈ t) : y ∈ names n.children := by
  cases h with
  | cancelled => cases ho
  | fault hu =>
    rcases List.mem_cons.1 ho with ho | ho
    · cases ho
    · exact (says_work input n hn _ _ hu).1.gave y o ho
  | gave hu hd hr => cases hr _ rfl

end Node

end WorkflowEngine
