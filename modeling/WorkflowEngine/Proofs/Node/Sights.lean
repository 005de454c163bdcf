import WorkflowEngine.Proofs.Node.Halting
import WorkflowEngine.Proofs.Node.Scopes

/-!
# What nodes are given

The input of a node is that of the visit around it, with what the sequences around the node have
completed chained to it, the outermost first. Main statement: this holds of everything that is
given an input during a visit.
-/

namespace WorkflowEngine

/-- An input with some outputs chained to it, each by its name. -/
def StepInput.chainAll (i : StepInput) (l : List (String × StepOutput)) : StepInput :=
  l.foldl (fun i e => i.chain e.1 e.2) i

namespace StepInput

variable (i : StepInput) (l : List (String × StepOutput))

theorem chainAll_append (l' : List (String × StepOutput)) :
    i.chainAll (l ++ l') = (i.chainAll l).chainAll l' :=
  List.foldl_append ..

theorem message_chainAll : (i.chainAll l).message = i.message := by
  induction l generalizing i with
  | nil => rfl
  | cons e l ih => exact ih _

theorem additionalData_chainAll : (i.chainAll l).additionalData = i.additionalData := by
  induction l generalizing i with
  | nil => rfl
  | cons e l ih => exact ih _

/-- The content that comes just before is that of the latest output. -/
theorem previousContent_chainAll : (i.chainAll l).previousContent =
    match l.getLast? with
    | some e => e.2.content
    | none => i.previousContent := by
  rcases List.eq_nil_or_concat l with rfl | ⟨l, e, rfl⟩
  · rfl
  · simp [chainAll, chain]

/-- Under a name stands the latest output that was chained by it. -/
theorem get?_chainAll (y : String) : (i.chainAll l).previousOutputs.get? y =
    (l.reverse.lookup y).or (i.previousOutputs.get? y) := by
  induction l generalizing i with
  | nil => rfl
  | cons e l ih =>
    obtain ⟨z, o⟩ := e
    have hchain : (i.chain z o).previousOutputs.get? y =
        ([(z, o)].lookup y).or (i.previousOutputs.get? y) := by
      rw [chain, KeyMap.get?_insert, List.lookup_cons]
      by_cases hy : y = z <;> simp [hy, beq_eq_false_iff_ne.2]
    rw [List.reverse_cons, List.lookup_append, Option.or_assoc, ← hchain]
    exact ih _

end StepInput

open TaskAccount

namespace Node

/-- The turn of a node in a sequence around it: the owner was entered, and since then the members
were completed some rounds long, and then those before the one that the node lies in. Only the body
of a loop is run more than once. -/
structure Scope.Turn (s : Scope) (t : List Happening) (x : String) : Prop where
  entered : s.Entered t
  completed : ∃ before c after k, s.members = before ++ c :: after ∧ x ∈ names [c] ∧
    (s.completed t).map Prod.fst =
      (List.replicate k (s.members.map Node.name)).flatten ++ before.map Node.name ∧
    (k ≠ 0 → s.loops = true)

/-- The input of a node, by what happened before it was given. -/
structure Sees (scopes : List Scope) (input : StepInput) (t : List Happening) (x : String)
    (i : StepInput) : Prop where
  chained : i = input.chainAll (scopes.flatMap (·.completed t))
  turn : ∀ s ∈ scopes, s.Turn t x

/-- A history of some nodes, all of which see what the sequences around them have completed, also
before this history. -/
structure Sighted (part : List Node) (scopes : String → List Scope) (input : StepInput)
    (before t : List Happening) : Prop where
  node : ∀ a ∈ t, ∃ x ∈ names part, a.node? = some x
  sees : ∀ t₁ a t₂ x i, t = t₁ ++ a :: t₂ → a.given? = some (x, i) →
    Sees (scopes x) input (before ++ t₁) x i

variable {part : List Node} {around : String → List Scope} {input : StepInput}
  {before t u : List Happening}

theorem Scope.Turn.append {s : Scope} {x : String} (hs : s.BelongsTo part) (h : s.Turn t x)
    (before : List Happening) : s.Turn (before ++ t) x where
  entered := fun y hy => by
    obtain ⟨j, hj⟩ := h.entered y hy
    exact ⟨j, List.mem_append_right _ hj⟩
  completed := by
    rw [hs.completed_append h.entered]
    exact h.completed

/-- What came before does not matter for sequences with owners that were entered since. -/
theorem completed_before {l : List Scope} {x : String} (hl : ∀ s ∈ l, s.BelongsTo part)
    (h : ∀ s ∈ l, s.Turn t x) (before : List Happening) :
    l.flatMap (·.completed (before ++ t)) = l.flatMap (·.completed t) := by
  refine congrArg List.flatten (List.map_congr_left fun s hs => ?_)
  exact (hl s hs).completed_append (h s hs).entered

namespace Sighted

theorem name (h : Sighted part around input before t) {a : Happening} (ha : a ∈ t) {x : String}
    (hx : a.node? = some x) : x ∈ names part := by
  obtain ⟨y, hy, hay⟩ := h.node a ha
  exact Option.some.inj (hx.symm.trans hay) ▸ hy

theorem nil : Sighted part around input before [] :=
  ⟨fun _ h => (by cases h), fun t₁ a t₂ _ _ ht => by simp at ht⟩

theorem append (ht : Sighted part around input before t)
    (hu : Sighted part around input (before ++ t) u) :
    Sighted part around input before (t ++ u) := by
  refine ⟨fun a ha => (List.mem_append.1 ha).elim (ht.node a) (hu.node a),
    fun t₁ a t₂ x i h ha => ?_⟩
  rcases List.append_eq_append_iff.1 h with ⟨v, rfl, rfl⟩ | ⟨v, rfl, hv⟩
  · rw [← List.append_assoc]
    exact hu.sees v a t₂ x i rfl ha
  · cases v with
    | nil =>
      obtain rfl : u = a :: t₂ := by simpa using hv.symm
      simpa using hu.sees [] a t₂ x i rfl ha
    | cons b v =>
      cases hv
      exact ht.sees t₁ a v x i rfl ha

theorem gave {x : String} (hx : x ∈ names part) (o : StepOutput) :
    Sighted part around input before [.gave x o] := by
  refine ⟨fun a ha => ?_, fun t₁ a t₂ y i h ha => ?_⟩
  · obtain rfl := List.mem_singleton.1 ha
    exact ⟨x, hx, rfl⟩
  · obtain ⟨rfl, rfl, rfl⟩ := by simpa using List.append_eq_singleton_iff.1 h.symm
    cases ha

/-- The same history among other nodes and sequences, when everything given an input sees the same. -/
theorem recast {part' : List Node} {around' : String → List Scope} {input' : StepInput}
    {before' : List Happening} (h : Sighted part around input before t)
    (hpart : ∀ x ∈ names part, x ∈ names part')
    (hsees : ∀ t₁ a t₂ x i, t = t₁ ++ a :: t₂ → x ∈ names part → a.given? = some (x, i) →
      Sees (around x) input (before ++ t₁) x i → Sees (around' x) input' (before' ++ t₁) x i) :
    Sighted part' around' input' before' t :=
  ⟨fun a ha => let ⟨x, hx, hax⟩ := h.node a ha; ⟨x, hpart x hx, hax⟩, fun t₁ a t₂ x i ht ha =>
    hsees t₁ a t₂ x i ht (h.name (ht ▸ by simp) (Happening.node?_of_given? ha)) ha
      (h.sees t₁ a t₂ x i ht ha)⟩

end Sighted

/-- The same sequences within others that have completed as much, after some history before. -/
theorem Sees.within (top top' : List Scope) {l : List Scope} {input' : StepInput} {x : String}
    {i : StepInput} (h : Sees (top ++ l) input t x i) (hl : ∀ s ∈ l, s.BelongsTo part) (before : List Happening)
    (hinput : input.chainAll (top.flatMap (·.completed t)) =
      input'.chainAll (top'.flatMap (·.completed (before ++ t))))
    (hturn : ∀ s ∈ top', s.Turn (before ++ t) x) : Sees (top' ++ l) input' (before ++ t) x i where
  chained := by
    have hturns (s : Scope) (hs : s ∈ l) : s.Turn t x := h.turn s (List.mem_append_right _ hs)
    rw [h.chained, List.flatMap_append, List.flatMap_append, StepInput.chainAll_append,
      StepInput.chainAll_append, hinput, completed_before hl hturns]
  turn := fun s hs => (List.mem_append.1 hs).elim (hturn s) fun hs =>
    (h.turn s (List.mem_append_right _ hs)).append (hl s hs) before

/-! ## Visits and sequences -/

/-- A visit around work in which everything below sees what it should. -/
theorem sighted_around {n : Node} {A : TaskAccount (StepOutput × Course)}
    (hn : (names [n]).Nodup) (hA : A.Says
      (Sighted [n] (scopesAmong · [n]) input [.entered n.name input]) fun _ _ => True) :
    (n.Around input A).Says (Sighted [n] (scopesAmong · [n]) input []) fun _ _ => True := by
  have hentered : Sighted [n] (scopesAmong · [n]) input [] [.entered n.name input] := by
    refine ⟨fun a ha => ?_, fun t₁ a t₂ x i h ha => ?_⟩
    · obtain rfl := List.mem_singleton.1 ha
      exact ⟨n.name, name_mem_names n, rfl⟩
    · obtain ⟨rfl, rfl, rfl⟩ := by simpa using List.append_eq_singleton_iff.1 h.symm
      cases ha
      rw [scopesAmong_self hn]
      exact ⟨rfl, fun _ hs => nomatch hs⟩
  intro t r ht
  refine ⟨?_, fun _ _ => trivial⟩
  cases ht with
  | idle | cancelled => exact .nil
  | under h | fault h => exact hentered.append (hA _ _ h).1
  | gave h =>
    exact hentered.append ((hA _ _ h).1.append (.gave (name_mem_names n) _))

/-- What a sequence hands on when it was not halted: everything its members gave, each once. -/
def Hands (nodes : List Node) (input : StepInput) (t : List Happening) : Sequence → Prop
  | .halted _ => True
  | .completed _ next _ | .empty next => next = input.chainAll (outputsOf nodes t) ∧
      (outputsOf nodes t).map Prod.fst = nodes.map Node.name

section

variable {n : Node} {rest : List Node} (hn : (names (n :: rest)).Nodup)

include hn

/-- No node below the first one of a sequence has the name of a member. -/
theorem notMem_of_below {y : String} (hy : y ∈ names n.children) :
    y ∉ (n :: rest).map Node.name := by
  rintro hmem
  have hnodup := (Within.head hn).nodup hn
  rw [names_singleton] at hnodup
  rcases List.mem_cons.1 hmem with rfl | hmem
  · exact (List.nodup_cons.1 hnodup).1 hy
  · obtain ⟨m, hm, rfl⟩ := List.mem_map.1 hmem
    rw [names_cons] at hn
    exact (List.nodup_append.1 hn).2.2 _ (names_children_subset hy) _
      (mem_names_of_mem hm (name_mem_names m)) rfl

/-- Before a visit of the first node of a sequence is over, no member has given an output; the visit
adds that of its node. -/
theorem outputsOf_visit {q : Option (Except Fault (StepOutput × Course))}
    (h : n.visit input t q) :
    (∀ t₁ a t₂, t = t₁ ++ a :: t₂ → a.given?.isSome → outputsOf (n :: rest) t₁ = []) ∧
      ∀ o c, q = some (.ok (o, c)) → outputsOf (n :: rest) t = [(n.name, o)] := by
  have hnodup := (Within.head hn).nodup hn
  obtain ⟨u, r, rfl, hu, hr, hq⟩ := gave_of_visit hnodup h
  refine ⟨fun t₁ a t₂ ht ha => ?_, fun o c ho => ?_⟩
  · have hbefore : ∀ b ∈ t₁, b ∈ u := by
      rcases List.append_eq_append_iff.1 ht with ⟨v, rfl, hv⟩ | ⟨v, rfl, -⟩
      · -- What is given an input is not told at the end.
        rcases hr with rfl | ⟨o, rfl⟩
        · simp at hv
        · cases v with
          | nil => simp
          | cons b v => simp at hv
      · exact fun b hb => List.mem_append_left _ hb
    exact outputsOf_eq_nil fun y o ho => notMem_of_below hn (hu y o (hbefore _ ho))
  · rw [hq o c ho, outputsOf_append, outputsOf_gave (by simp),
      outputsOf_eq_nil fun y o ho => notMem_of_below hn (hu y o ho), List.nil_append]

/-- The rest of a sequence after its first member. -/
private theorem Sighted.after_first {o : StepOutput} (ht : outputsOf (n :: rest) t = [(n.name, o)])
    (hu : Sighted rest (scopes rest) (input.chain n.name o) [] u) :
    Sighted (n :: rest) (scopes (n :: rest)) input t u := by
  refine hu.recast (fun x hx => ?_) fun u₁ a u₂ x i hsplit hx ha hs => ?_
  · rw [names_cons]
    exact List.mem_append_right _ hx
  · have hsame : outputsOf (n :: rest) u₁ = outputsOf rest u₁ := outputsOf_congr fun y o ho => by
      have hy : y ∈ names rest := hu.name (a := .gave y o) (by simp [hsplit, ho]) rfl
      have hne : y ≠ n.name := fun heq => by
        rw [names_cons] at hn
        exact (List.nodup_append.1 hn).2.2 _ (name_mem_names n) _ hy heq.symm
      simp [hne]
    have hcompleted : ({ members := n :: rest } : Scope).completed (t ++ u₁) =
        (n.name, o) :: ({ members := rest } : Scope).completed u₁ := by
      simp only [Scope.completed, Scope.current, outputsOf_append, ht, hsame, List.singleton_append]
    rw [List.nil_append] at hs
    rw [scopes, scopesAmong_tail hn hx, ← List.singleton_append]
    refine Sees.within [{ members := rest }] _ hs (fun _ => belongsTo_of_among rest) t ?_ ?_
    · simp only [List.flatMap_singleton, hcompleted]
      rfl
    · intro s hs'
      obtain rfl := List.mem_singleton.1 hs'
      obtain ⟨before, c, after, k, hmembers, hc, hcomp, hk⟩ :=
        (hs.turn _ (List.mem_cons_self ..)).completed
      obtain rfl : k = 0 := by
        by_contra hne
        cases hk hne
      refine ⟨fun y hy => (by cases hy), n :: before, c, after, 0, congrArg _ hmembers, hc, ?_, hk⟩
      rw [hcompleted, List.map_cons, hcomp]
      rfl

theorem sighted_cons {input : StepInput}
    (hv : (n.Around input (visitWork input n)).Says (Sighted [n] (scopesAmong · [n]) input [])
      fun _ _ => True)
    (hs : ∀ input, (visitSequence rest input).Says (Sighted rest (scopes rest) input [])
      fun t p => Hands rest input t p.1) :
    (visitSequence (n :: rest) input).Says (Sighted (n :: rest) (scopes (n :: rest)) input [])
      fun t p => Hands (n :: rest) input t p.1 := by
  have hhead {t : List Happening} {q : Option (Except Fault (StepOutput × Course))}
      (h : n.visit input t q) : Sighted (n :: rest) (scopes (n :: rest)) input [] t := by
    refine (hv t q h).1.recast (fun x hx => ?_) fun t₁ a t₂ x i ht hx ha hs => ?_
    · rw [names_cons]
      exact List.mem_append_left _ hx
    · have hnone : outputsOf (n :: rest) t₁ = [] :=
        (outputsOf_visit hn h).1 t₁ a t₂ ht (by simp [ha])
      rw [scopes, scopesAmong_head hn hx, ← List.singleton_append]
      refine Sees.within [] _ hs (fun _ => belongsTo_of_among [n]) [] ?_ ?_
      · simp [Scope.completed, Scope.current, hnone]
      · intro s hs'
        obtain rfl := List.mem_singleton.1 hs'
        refine ⟨fun y hy => (by cases hy), [], n, rest, 0, rfl, hx, ?_, fun h => absurd rfl h⟩
        simp [Scope.completed, Scope.current, hnone]
  intro t r ht
  unfold visitSequence at ht
  cases ht with
  | under h | fault h => exact ⟨hhead h, fun _ hr => by cases hr⟩
  | @next t u p r h hb =>
    obtain ⟨o, c⟩ := p
    have hgave : outputsOf (n :: rest) t = [(n.name, o)] := (outputsOf_visit hn h).2 o c rfl
    dsimp only at hb
    split at hb
    · obtain ⟨rfl, hr⟩ := hb
      refine ⟨by simpa using hhead h, fun p hp => ?_⟩
      cases hr _ hp
      trivial
    · obtain ⟨q, hq, rfl⟩ := hb
      obtain ⟨hu, hands⟩ := hs _ _ _ hq
      refine ⟨(hhead h).append (Sighted.after_first hn hgave hu), fun p hp => ?_⟩
      rcases q with _ | _ | ⟨q, visits⟩ <;> cases hp
      have hsame : outputsOf (n :: rest) u = outputsOf rest u := outputsOf_congr fun y o ho => by
        have hne : y ≠ n.name := fun heq => by
          rw [names_cons] at hn
          exact (List.nodup_append.1 hn).2.2 _ (name_mem_names n) _ (hu.name ho rfl) heq.symm
        simp [hne]
      have hq := hands _ rfl
      cases q with
      | halted => trivial
      | completed _ next _ | empty next =>
        obtain ⟨hnext, hnames⟩ := hq
        simp only [Sequence.after, Hands, outputsOf_append, hgave, hsame, List.map_cons,
          List.singleton_append, hnames, and_true]
        exact hnext

end

/-! ## Nodes with children -/

section

variable {n : Node} (hn : (names [n]).Nodup)

include hn

/-- A history of children within one of their node, which runs them one after another. -/
theorem Sighted.owned {s : Scope} (hs : n.scope? = some s)
    (h : Sighted n.children (fun x => { s with owner := none } :: scopesAmong x n.children) input []
      u) : Sighted [n] (scopesAmong · [n]) input [.entered n.name input] u := by
  obtain ⟨howner, hmembers⟩ := scope?_eq_some hs
  refine h.recast (fun x => names_children_subset) fun u₁ a u₂ x i hsplit hx ha hsees => ?_
  have hentered (j : StepInput) : .entered n.name j ∉ u₁ := fun hj => by
    rw [names_singleton] at hn
    exact (List.nodup_cons.1 hn).1 (h.name (a := .entered n.name j) (by simp [hsplit, hj]) rfl)
  have hsame : s.completed (.entered n.name input :: u₁) =
      ({ s with owner := none } : Scope).completed u₁ := by
    simp only [Scope.completed, Scope.current, howner]
    rw [since_entered hentered]
  rw [List.nil_append] at hsees
  rw [scopesAmong_children hx, hs, Option.toList_some]
  refine Sees.within [{ s with owner := none }] _ hsees (fun _ => belongsTo_of_among _)
    [.entered n.name input] ?_ ?_
  · simp only [List.flatMap_singleton, List.singleton_append, hsame]
  · intro s' hs'
    obtain rfl := List.mem_singleton.1 hs'
    refine ⟨fun y hy => ⟨input, ?_⟩, ?_⟩
    · cases howner.symm.trans hy
      exact List.mem_cons_self ..
    · rw [List.singleton_append, hsame]
      exact (hsees.turn _ (List.mem_cons_self ..)).completed

omit hn in
/-- A history of children within one of their node, which runs them in no sequence. -/
theorem Sighted.through (hs : n.scope? = none)
    (h : Sighted n.children (scopesAmong · n.children) input [] u) :
    Sighted [n] (scopesAmong · [n]) input [.entered n.name input] u := by
  refine h.recast (fun x => names_children_subset) fun u₁ a u₂ x i hsplit hx ha hsees => ?_
  rw [List.nil_append] at hsees
  rw [scopesAmong_children hx, hs]
  exact Sees.within [] _ hsees (fun _ => belongsTo_of_among _) [.entered n.name input] rfl
    fun _ hs => nomatch hs

end

/-! ## Loops -/

/-- The sequences around a node in the body of a loop. -/
abbrev scopesInLoop (nodes : List Node) (x : String) : List Scope :=
  { loops := true, members := nodes } :: scopesAmong x nodes

/-- The input of an iteration, after some full rounds of the body. -/
structure Rounds (nodes : List Node) (input : StepInput) (before : List Happening)
    (next : StepInput) : Prop where
  input : next = input.chainAll (outputsOf nodes before)
  rounds : ∃ k, (outputsOf nodes before).map Prod.fst =
    (List.replicate k (nodes.map Node.name)).flatten

/-- An iteration after some rounds of the body. -/
theorem Sighted.again {nodes : List Node} {next : StepInput} (hr : Rounds nodes input before next)
    (h : Sighted nodes (scopes nodes) next [] t) :
    Sighted nodes (scopesInLoop nodes) input before t := by
  obtain ⟨hinput, k, hnames⟩ := hr
  refine h.recast (fun x hx => hx) fun t₁ a t₂ x i ht hx ha hs => ?_
  have hcompleted : ({ loops := true, members := nodes } : Scope).completed (before ++ t₁) =
      outputsOf nodes before ++ outputsOf nodes t₁ := outputsOf_append
  rw [List.nil_append] at hs
  rw [scopesInLoop, ← List.singleton_append]
  refine Sees.within [{ members := nodes }] _ hs (fun _ => belongsTo_of_among nodes) before
    ?_ ?_
  · rw [List.flatMap_singleton, List.flatMap_singleton, hcompleted, StepInput.chainAll_append,
      ← hinput]
    rfl
  · intro s hs'
    obtain rfl := List.mem_singleton.1 hs'
    obtain ⟨first, c, after, j, hmembers, hc, hcomp, hj⟩ :=
      (hs.turn _ (List.mem_cons_self ..)).completed
    obtain rfl : j = 0 := by
      by_contra hne
      cases hj hne
    refine ⟨fun y hy => (nomatch hy), first, c, after, k, hmembers, hc, ?_, fun _ => rfl⟩
    rw [hcompleted, List.map_append, hnames]
    exact congrArg _ hcomp

/-- A further round. -/
theorem Rounds.next {nodes : List Node} {next next' : StepInput}
    (hr : Rounds nodes input before next)
    (h : next' = next.chainAll (outputsOf nodes t) ∧
      (outputsOf nodes t).map Prod.fst = nodes.map Node.name) :
    Rounds nodes input (before ++ t) next' := by
  obtain ⟨hinput, k, hnames⟩ := hr
  refine ⟨?_, k + 1, ?_⟩
  · rw [h.1, hinput, outputsOf_append, StepInput.chainAll_append]
  · rw [outputsOf_append, List.map_append, hnames, h.2, List.replicate_succ']
    simp

end Node

namespace Loop

open Node

variable {name : String} {ends : Option (List StepOutput → Except String Bool)} {nodes : List Node}
  {body : StepInput → TaskAccount (Sequence × List Course)} {input next : StepInput}
  {before : List Happening}
  (hb : ∀ input, (body input).Says (Sighted nodes (scopes nodes) input [])
    fun t p => Hands nodes input t p.1)

include hb

private theorem sighted_round {done : List StepOutput}
    {otherwise : StepOutput → List StepOutput → StepInput → TaskAccount (LoopResult × List Course)}
    (hr : Rounds nodes input before next)
    (ho : ∀ t output done next, Rounds nodes input (before ++ t) next →
      (otherwise output done next).Says (Sighted nodes (scopesInLoop nodes) input (before ++ t))
        fun _ _ => True) :
    (round name ends body done next otherwise).Says
      (Sighted nodes (scopesInLoop nodes) input before) fun _ _ => True := by
  refine .unlessCancelled (.bind (hb next) (fun t ht => ht.again hr) fun t p ht hp => ?_) .nil
  have hdone : Sighted nodes (scopesInLoop nodes) input before t := ht.again hr
  have hnow : Sighted nodes (scopesInLoop nodes) input before (t ++ []) := by simpa using hdone
  have hconclude (output : StepOutput) (next : StepInput) (visits : List Course)
      (hr : Rounds nodes input (before ++ t) next) :
      (round.conclude name ends done otherwise output next visits).Says
        (fun u => Sighted nodes (scopesInLoop nodes) input before (t ++ u)) fun _ _ => True := by
    refine .given hnow fun converged _ => ?_
    cases converged with
    | true => exact .ret hnow trivial
    | false =>
      refine .map ((ho t output _ next hr).mono (fun u hu => ?_) fun _ _ _ _ => trivial)
      exact hdone.append hu
  obtain ⟨q, visits⟩ := p
  cases q with
  | halted output => exact .ret hnow trivial
  | completed output next produced => exact hconclude output next visits (hr.next hp)
  | empty next => exact hconclude _ next visits (hr.next hp)

private theorem sighted_rounds (left : Nat) (done : List StepOutput)
    (hr : Rounds nodes input before next) :
    (rounds name ends body left done next).Says (Sighted nodes (scopesInLoop nodes) input before)
      fun _ _ => True := by
  induction left generalizing before done next with
  | zero => exact sighted_round hb hr fun _ _ _ _ _ => .ret .nil trivial
  | succ left ih => exact sighted_round hb hr fun _ _ done _ hr => ih done hr

theorem sighted_visit (maxIterations : Nat) :
    (visit name maxIterations ends body input).Says (Sighted nodes (scopesInLoop nodes) input [])
      fun _ _ => True := by
  cases maxIterations with
  | zero => exact .ofResult .nil fun _ _ => trivial
  | succ left => exact sighted_rounds hb left [] ⟨rfl, 0, rfl⟩

end Loop

namespace Node

/-! ## Parallel children -/

/-- What the nodes of a part see does not depend on what others do at the same time. -/
theorem Sighted.among {children : List Node}
    (h : Sighted part (scopesAmong · part) input [] (t.filter (concerns part)))
    (hscopes : ∀ x ∈ names part, scopesAmong x children = scopesAmong x part)
    {t₁ t₂ : List Happening} {a : Happening} {x : String} {i : StepInput} (ht : t = t₁ ++ a :: t₂)
    (ha : a.given? = some (x, i)) (hx : x ∈ names part) :
    Sees (scopesAmong x children) input t₁ x i := by
  have hsplit : t.filter (concerns part) =
      t₁.filter (concerns part) ++ a :: t₂.filter (concerns part) := by
    have hconcerns : concerns part a = true :=
      (concerns_of_node? (Happening.node?_of_given? ha)).2 hx
    rw [ht, List.filter_append, List.filter_cons_of_pos hconcerns]
  obtain ⟨hinput, hturn⟩ := h.sees _ a _ x i hsplit ha
  rw [List.nil_append] at hinput hturn
  have hsame (s : Scope) (hs : s ∈ scopesAmong x part) :
      s.completed (t₁.filter (concerns part)) = s.completed t₁ :=
    (belongsTo_of_among part hs).completed_filter
  rw [hscopes x hx]
  refine ⟨?_, fun s hs => ⟨fun y hy => ?_, ?_⟩⟩
  · rw [hinput]
    exact congrArg _ (congrArg List.flatten (List.map_congr_left hsame))
  · obtain ⟨j, hj⟩ := (hturn s hs).entered y hy
    exact ⟨j, List.mem_of_mem_filter hj⟩
  · rw [← hsame s hs]
    exact (hturn s hs).completed

private theorem Sighted.beside {c : Node} {rest : List Node} {v : List Happening}
    (hn : (names (c :: rest)).Nodup) (hu : Sighted [c] (scopesAmong · [c]) input [] u)
    (hv : Sighted rest (scopesAmong · rest) input [] v) (hi : Interleave u v t) :
    Sighted (c :: rest) (scopesAmong · (c :: rest)) input [] t := by
  have hne := hn
  rw [names_cons] at hne
  replace hne := (List.nodup_append.1 hne).2.2
  have hown {part : List Node} {l : List Happening}
      (hl : Sighted part (scopesAmong · part) input [] l) (a : Happening) (ha : a ∈ l) :
      concerns part a = true := by
    obtain ⟨x, hx, hax⟩ := hl.node a ha
    exact (concerns_of_node? hax).2 hx
  have hother {part part' : List Node} {l : List Happening}
      (hl : Sighted part (scopesAmong · part) input [] l)
      (hdisjoint : ∀ x ∈ names part, x ∉ names part') (a : Happening) (ha : a ∈ l) :
      concerns part' a = false := by
    obtain ⟨x, hx, hax⟩ := hl.node a ha
    exact Bool.eq_false_iff.2 fun h => hdisjoint x hx ((concerns_of_node? hax).1 h)
  have hfirst : t.filter (concerns [c]) = u :=
    (hi.filter (hown hu) (hother hv fun x hx hx' => hne x hx' x hx rfl)).1
  have hrest : t.filter (concerns rest) = v :=
    (hi.symm.filter (hown hv) (hother hu fun x hx hx' => hne x hx x hx' rfl)).1
  rw [← hfirst] at hu
  rw [← hrest] at hv
  refine ⟨fun a ha => ?_, fun t₁ a t₂ x i ht ha => ?_⟩
  · rw [names_cons]
    rcases hi.mem_iff.1 ha with ha | ha
    · obtain ⟨x, hx, hax⟩ := hu.node a (hfirst ▸ ha)
      exact ⟨x, List.mem_append_left _ hx, hax⟩
    · obtain ⟨x, hx, hax⟩ := hv.node a (hrest ▸ ha)
      exact ⟨x, List.mem_append_right _ hx, hax⟩
  · have hx := Happening.node?_of_given? ha
    rw [List.nil_append]
    rcases hi.mem_iff.1 (ht ▸ List.mem_append_right _ (List.mem_cons_self ..)) with hmem | hmem
    · exact hu.among (fun x hx => scopesAmong_head hn hx) ht ha (hu.name (hfirst ▸ hmem) hx)
    · exact hv.among (fun x hx => scopesAmong_tail hn hx) ht ha (hv.name (hrest ▸ hmem) hx)

/-! ## The tree -/

mutual

private theorem sighted_work (input : StepInput) : (n : Node) → (names [n]).Nodup →
    (visitWork input n).Says (Sighted [n] (scopesAmong · [n]) input [.entered n.name input])
      fun _ _ => True
  | .step s, hn => by
    rintro t r ⟨⟨k, rfl⟩, -⟩
    refine ⟨⟨fun a ha => ?_, fun t₁ a t₂ x i ht ha => ?_⟩, fun _ _ => trivial⟩
    · obtain rfl := List.eq_of_mem_replicate ha
      exact ⟨s.name, name_mem_names (step s), rfl⟩
    · obtain rfl : a = .called s.name input := List.eq_of_mem_replicate (n := k) (ht ▸ by simp)
      cases ha
      have hnone : scopesAmong s.name [step s] = [] := scopesAmong_self hn
      rw [hnone]
      exact ⟨rfl, fun _ hs => nomatch hs⟩
  | .steps name description children, hn =>
    .map ((sighted_sequence children (nodup_children hn) input).mono
      (fun _ => Sighted.owned (n := .steps name description children) hn rfl) fun _ _ _ _ => trivial)
  | .condition name description test children, hn => by
    unfold visitWork
    refine .given .nil fun holds _ => ?_
    split
    · exact .map ((sighted_sequence children (nodup_children hn) input).mono
        (fun _ => Sighted.owned (n := .condition name description test children) hn rfl)
        fun _ _ _ _ => trivial)
    · exact .ret .nil trivial
  | .loop name description maxIterations ends children, hn => by
    unfold visitWork
    refine .map ((Loop.sighted_visit (sighted_sequence children (nodup_children hn))
      maxIterations).mono (fun _ => ?_) fun _ _ _ _ => trivial)
    exact Sighted.owned (n := .loop name description maxIterations ends children) hn rfl
  | .parallel name description children, hn => by
    unfold visitWork
    rintro t r ⟨q, hq, -⟩
    refine ⟨Sighted.through (n := .parallel name description children) rfl ?_, fun _ _ => trivial⟩
    exact sighted_all input children (nodup_children hn) t q hq
  | .router name description select choices, hn => by
    unfold visitWork
    refine .given .nil fun choice _ => ?_
    exact (sighted_choice input choice.name choices (nodup_children hn)).mono
      (fun _ => Sighted.through (n := .router name description select choices) rfl)
      fun _ _ _ _ => trivial

/-- In a sequence every node sees what the members before have completed, and what the sequences
below have. -/
theorem sighted_sequence : (nodes : List Node) → (names nodes).Nodup →
    (input : StepInput) → (visitSequence nodes input).Says (Sighted nodes (scopes nodes) input [])
      fun t p => Hands nodes input t p.1
  | [], _, _ => .ret .nil ⟨rfl, rfl⟩
  | n :: rest, hn, input =>
    have hn' := (Within.head hn).nodup hn
    sighted_cons hn (sighted_around hn' (sighted_work input n hn'))
      (sighted_sequence rest ((Within.tail hn).nodup hn))

private theorem sighted_all (input : StepInput) : (children : List Node) →
    (names children).Nodup → ∀ t q, Account.together (visitAll input children) t q →
      Sighted children (scopesAmong · children) input [] t
  | [], _, t, q, h => by
    obtain ⟨rfl, -⟩ := h
    exact .nil
  | c :: rest, hn, t, q, h => by
    obtain ⟨u, p, v, q', hc, hrest, hi, -⟩ := h
    have hn' := (Within.head hn).nodup hn
    exact .beside hn (sighted_around hn' (sighted_work input c hn') u p hc).1
      (sighted_all input rest ((Within.tail hn).nodup hn) v q' hrest) hi

private theorem sighted_choice (input : StepInput) (name : String) : (choices : List Node) →
    (names choices).Nodup → (visitChoice input name choices).Says
      (Sighted choices (scopesAmong · choices) input []) fun _ _ => True
  | [], _ => .ofResult .nil fun _ h => nomatch h
  | n :: rest, hn => by
    unfold visitChoice
    split
    · have hn' := (Within.head hn).nodup hn
      refine (sighted_around hn' (sighted_work input n hn')).mono (fun t ht => ht.recast
        (fun x => (Within.head hn).names) fun t₁ a t₂ x i _ hx _ hs => ?_) fun _ _ _ _ => trivial
      rwa [scopesAmong_head hn hx]
    · refine (sighted_choice input name rest ((Within.tail hn).nodup hn)).mono (fun t ht =>
        ht.recast (fun x => (Within.tail hn).names) fun t₁ a t₂ x i _ hx _ hs => ?_)
        fun _ _ _ _ => trivial
      rwa [scopesAmong_tail hn hx]

end

/-! ## Fields of inputs -/

/-- What a node of a workflow is given, by what happened before it was given. -/
structure Sight (nodes : List Node) (input : StepInput) (t : List Happening) (x : String)
    (i : StepInput) : Prop where
  message : i.message = input.message
  additionalData : i.additionalData = input.additionalData
  /-- Exactly those members of the sequences around it are known by name which have completed in
  the current execution of the owner, each with its latest output. -/
  outputs : ∀ y o, i.previousOutputs.get? y = some o ↔
    ∃ s ∈ scopes nodes x, (s.completed t).reverse.lookup y = some o
  /-- The content is that of the member which completed last in the innermost of these sequences
  where one has. -/
  content : i.previousContent =
    ((scopes nodes x).reverse.findSome? fun s => (s.completed t).getLast?).bind (·.2.content)
  turn : ∀ s ∈ scopes nodes x, s.Turn t x

private theorem lookup_completed {l : List Scope} (hl : l.Pairwise Scope.Apart)
    {y : String} {o : StepOutput} :
    (l.flatMap (·.completed t)).reverse.lookup y = some o ↔
      ∃ s ∈ l, (s.completed t).reverse.lookup y = some o := by
  have hmember {s : Scope} {p : StepOutput} (h : (y, p) ∈ s.completed t) :
      y ∈ s.members.map Node.name := (mem_outputsOf.1 h).2
  induction l with
  | nil => simp
  | cons s l ih =>
    obtain ⟨hs, hl⟩ := List.pairwise_cons.1 hl
    rw [List.flatMap_cons, List.reverse_append, List.lookup_append, Option.or_eq_some_iff]
    constructor
    · rintro (ho | ⟨-, ho⟩)
      · obtain ⟨s', hs', ho⟩ := (ih hl).1 ho
        exact ⟨s', List.mem_cons_of_mem _ hs', ho⟩
      · exact ⟨s, List.mem_cons_self .., ho⟩
    · rintro ⟨s', hs', ho⟩
      rcases List.mem_cons.1 hs' with rfl | hs'
      · refine .inr ⟨List.lookup_eq_none_iff.2 fun ⟨z, p⟩ hp => ?_, ho⟩
        obtain ⟨s, hsl, hp⟩ := List.mem_flatMap.1 (List.mem_reverse.1 hp)
        obtain ⟨l₁, l₂, hsplit, -⟩ := List.lookup_eq_some_iff.1 ho
        have hy : (y, o) ∈ s'.completed t := List.mem_reverse.1 (hsplit ▸ by simp)
        have hz : z ∉ s'.members.map Node.name := fun hz =>
          hs s hsl z hz (mem_outputsOf.1 hp).2
        exact bne_iff_ne.2 fun (hyz : y = z) => hz (hyz ▸ hmember hy)
      · exact .inl ((ih hl).2 ⟨s', hs', ho⟩)

/-- What is seen, field by field, when nothing was chained to the input of the workflow. -/
theorem Sees.sight {nodes : List Node} {x : String} {i : StepInput} (hn : (names nodes).Nodup)
    (h : Sees (scopes nodes x) input t x i) (houtputs : input.previousOutputs = ∅)
    (hcontent : input.previousContent = none) : Sight nodes input t x i where
  message := h.chained ▸ input.message_chainAll _
  additionalData := h.chained ▸ input.additionalData_chainAll _
  outputs := fun y o => by
    have hnone : input.previousOutputs.get? y = none := houtputs ▸ rfl
    rw [h.chained, input.get?_chainAll, hnone, Option.or_none, lookup_completed (apart_scopes hn x)]
  content := by
    rw [h.chained, input.previousContent_chainAll, List.getLast?_flatMap, hcontent]
    cases (scopes nodes x).reverse.findSome? fun s => (s.completed t).getLast? <;> rfl
  turn := h.turn

end Node

end WorkflowEngine
