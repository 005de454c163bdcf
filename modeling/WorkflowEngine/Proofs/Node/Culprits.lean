import WorkflowEngine.Proofs.Node.Halting

/-!
# Culprits

Who is named for a failure. The output of a step that failed comes out at the top as it is, through
groups, conditions, loops and routers alike, but a parallel node answers for its children. Main
statement: the output of a visit in which a step failed is, in name and error, that of the step or
of the outermost parallel node over it.
-/

namespace WorkflowEngine

open TaskAccount

namespace Node

/-- Whether a node is a parallel one over another one. -/
def parallelOver (x : String) : Node → Bool
  | parallel _ _ children => decide (x ∈ names children)
  | _ => false

/-- Who answers for the failure of a node: the outermost parallel node over it, or itself. -/
def culprit (nodes : List Node) (x : String) : String :=
  ((descendants nodes).find? (parallelOver x)).elim x Node.name

theorem names_of_parallelOver {n : Node} {x : String} (h : n.parallelOver x) :
    x ∈ names n.children := by
  cases n with
  | parallel name description children => exact of_decide_eq_true h
  | step | steps | condition | loop | router => cases h

private theorem find?_parallelOver_eq_none {nodes : List Node} {x : String} (h : x ∉ names nodes) :
    (descendants nodes).find? (parallelOver x) = none :=
  List.find?_eq_none.2 fun _ hm hover => h (names_trans hm (names_of_parallelOver hover))

theorem culprit_head {n : Node} {rest : List Node} {x : String}
    (hn : (names (n :: rest)).Nodup) (hx : x ∈ names [n]) :
    culprit (n :: rest) x = culprit [n] x := by
  rw [names_cons] at hn
  have hrest : x ∉ names rest := fun hx' => (List.nodup_append.1 hn).2.2 x hx x hx' rfl
  rw [culprit, descendants_cons, List.find?_append, find?_parallelOver_eq_none hrest,
    Option.or_none, culprit]

theorem culprit_tail {n : Node} {rest : List Node} {x : String}
    (hn : (names (n :: rest)).Nodup) (hx : x ∈ names rest) :
    culprit (n :: rest) x = culprit rest x := by
  rw [names_cons] at hn
  have hhead : x ∉ names [n] := fun hx' => (List.nodup_append.1 hn).2.2 x hx' x hx rfl
  rw [culprit, descendants_cons, List.find?_append, find?_parallelOver_eq_none hhead,
    Option.none_or, culprit]

/-- A node that is not parallel does not answer for those below it. -/
theorem culprit_children {n : Node} (hp : ∀ x, n.parallelOver x = false) (x : String) :
    culprit [n] x = culprit n.children x := by
  rw [culprit, descendants_singleton, List.find?_cons_of_neg (by simp [hp x]), culprit]

theorem culprit_parallel {name : String} {description : Option String} {children : List Node}
    {x : String} (hx : x ∈ names children) :
    culprit [parallel name description children] x = name := by
  rw [culprit, descendants_singleton, List.find?_cons_of_pos (by simp [parallelOver, hx])]
  rfl

theorem culprit_step (s : Step) : culprit [step s] s.name = s.name := by
  simp [culprit, descendants, inside, parallelOver]

/-- The culprit of a node is a node of the tree. -/
theorem culprit_mem_names {nodes : List Node} {x : String} (hx : x ∈ names nodes) :
    culprit nodes x ∈ names nodes := by
  unfold culprit
  cases hf : (descendants nodes).find? (parallelOver x) with
  | none => exact hx
  | some n => exact List.mem_map_of_mem (List.mem_of_find?_eq_some hf)

/-- What an output tells of the failures during the history of some nodes. One that failed has an
error. It bears the name of the culprit of every step that failed, and an output that the culprit
gave has its error. -/
structure Blames (nodes : List Node) (t : List Happening) (o : StepOutput) : Prop where
  explains : o.success = false → o.error.isSome
  blamed : ∀ s p, step s ∈ descendants nodes → .gave s.name p ∈ t → p.success = false →
    o.stepName = culprit nodes s.name ∧
      ∃ q, .gave o.stepName q ∈ t ∧ q.success = false ∧ q.error = o.error

namespace Blames

variable {nodes : List Node} {t u : List Happening} {o o' : StepOutput}

/-- Where nothing failed nobody is named. -/
theorem of_calm (hc : Calm t) (ho : o.success = true) : Blames nodes t o where
  explains := fun hf => by simp [ho] at hf
  blamed := fun s p _ hp hf => by
    rw [hc.success hp] at hf
    cases hf

theorem of_eq (h : Blames nodes t o) (hname : o'.stepName = o.stepName)
    (hsuccess : o'.success = o.success) (herror : o'.error = o.error) : Blames nodes t o' := by
  refine ⟨fun hf => ?_, fun s p hs hp hf => ?_⟩
  · rw [herror]
    exact h.explains (hsuccess ▸ hf)
  · rw [hname, herror]
    exact h.blamed s p hs hp hf

/-- The failures of a part of some nodes, after a history in which nothing halts. -/
theorem part {part : List Node} (hpart : PartOf part nodes)
    (hculprit : ∀ x ∈ names part, culprit nodes x = culprit part x) (hu : Order part u)
    (h : Blames part u o) (hc : Calm t) : Blames nodes (t ++ u) o := by
  refine ⟨h.explains, fun s p hs hp hf => ?_⟩
  rcases List.mem_append.1 hp with hp | hp
  · rw [hc.success hp] at hf
    cases hf
  · have hx : s.name ∈ names part := hu.node _ hp _ rfl
    obtain ⟨hname, q, hq, hfails⟩ := h.blamed s p (hpart.mem_of_name hs hx) hp hf
    exact ⟨by rw [hname, hculprit _ hx], q, List.mem_append_right _ hq, hfails⟩

theorem append (h : Blames nodes u o) (hc : Calm t) : Blames nodes (t ++ u) o := by
  refine ⟨h.explains, fun s p hs hp hf => ?_⟩
  rcases List.mem_append.1 hp with hp | hp
  · rw [hc.success hp] at hf
    cases hf
  · obtain ⟨hname, q, hq, hfails⟩ := h.blamed s p hs hp hf
    exact ⟨hname, q, List.mem_append_right _ hq, hfails⟩

end Blames

theorem Dates.named {n : Node} {o o' : StepOutput} (h : n.Dates o o') :
    o'.stepName = o.stepName ∧ o'.success = o.success ∧ o'.error = o.error := by
  obtain ⟨durationMs, rfl⟩ := h.exists_duration
  exact ⟨rfl, rfl, rfl⟩

/-- A node that is neither a step nor parallel hands on what its children tell of failures. -/
theorem Blames.around {n : Node} {input : StepInput} {t : List Happening} {o o' : StepOutput}
    (hn : (names [n]).Nodup) (hleaf : n.isLeaf = false) (hp : ∀ x, n.parallelOver x = false)
    (h : Blames n.children t o) (hd : n.Dates o o') :
    Blames [n] (.entered n.name input :: (t ++ [.gave n.name o'])) o' := by
  obtain ⟨hname, hsuccess, herror⟩ := hd.named
  have h' : Blames n.children t o' := h.of_eq hname hsuccess herror
  refine ⟨h'.explains, fun s p hs hgave hf => ?_⟩
  have hbelow : step s ∈ descendants n.children := by
    rw [descendants_singleton] at hs
    rcases List.mem_cons.1 hs with rfl | hs
    · cases hleaf
    · exact hs
  have hne : s.name ≠ n.name := by
    rw [names_singleton] at hn
    rintro heq
    exact (List.nodup_cons.1 hn).1 (heq ▸ List.mem_map_of_mem hbelow)
  have hmem : .gave s.name p ∈ t := by
    rcases List.mem_cons.1 hgave with hgave | hgave
    · cases hgave
    · rcases List.mem_append.1 hgave with hgave | hgave
      · exact hgave
      · obtain ⟨hx, -⟩ := Happening.gave.inj (List.mem_singleton.1 hgave)
        exact absurd hx hne
  obtain ⟨hculprit, q, hq, hfails⟩ := h'.blamed s p hbelow hmem hf
  exact ⟨by rw [hculprit, culprit_children hp], q, by simp [hq], hfails⟩

/-- What a sequence that was halted tells of failures. -/
abbrev SequenceBlames (nodes : List Node) (t : List Happening) (q : Sequence) : Prop :=
  ∀ o, q = .halted o → Blames nodes t o

end Node

namespace Loop

open Node

variable {name : String} {ends : Option (List StepOutput → Except String Bool)} {nodes : List Node}
  {body : StepInput → TaskAccount (Sequence × List Course)}
  (hb : ∀ input, (body input).Says (Order nodes) fun t p =>
    SequenceResult nodes t p.1 ∧ SequenceBlames nodes t p.1)

include hb

private theorem blames_round {done : List StepOutput} {input : StepInput}
    {otherwise : StepOutput → List StepOutput → StepInput → TaskAccount (LoopResult × List Course)}
    (ho : ∀ output done next, output.halts = false →
      (otherwise output done next).Says (fun _ => True) fun u p => Blames nodes u p.1.output) :
    (round name ends body done input otherwise).Says (fun _ => True)
      fun t p => Blames nodes t p.1.output := by
  refine .unlessCancelled (.bind (hb input) (fun _ _ => trivial) fun t p ht hp => ?_) trivial
  obtain ⟨q, visits⟩ := p
  obtain ⟨⟨hends, -⟩, hblames⟩ := hp
  have hconclude (output : StepOutput) (next : StepInput) (hc : Calm t)
      (hh : output.halts = false) : (round.conclude name ends done otherwise output next visits).Says
        (fun _ => True) fun u p => Blames nodes (t ++ u) p.1.output := by
    have hcalm : Calm (t ++ []) := by simpa using hc
    refine .given trivial fun converged _ => ?_
    cases converged with
    | true => exact .ret trivial (.of_calm hcalm (StepOutput.success_of_halts hh))
    | false =>
      exact .map ((ho output _ next hh).mono (fun _ _ => trivial) fun u p _ hu => hu.append hc)
  cases q with
  | halted output =>
    refine .ret trivial ?_
    rw [List.append_nil]
    exact (hblames output rfl).of_eq rfl rfl rfl
  | completed output next produced => exact hconclude output next hends.1 hends.2
  | empty next => exact hconclude _ next hends rfl

theorem blames_rounds (left : Nat) (done : List StepOutput) (input : StepInput) :
    (rounds name ends body left done input).Says (fun _ => True)
      fun t p => Blames nodes t p.1.output := by
  induction left generalizing done input with
  | zero =>
    exact blames_round hb fun output done next hh =>
      .ret trivial (.of_calm .nil (StepOutput.success_of_halts hh))
  | succ left ih => exact blames_round hb fun output done next _ => ih done next

theorem blames_visit (maxIterations : Nat) (input : StepInput) :
    (visit name maxIterations ends body input).Says (fun _ => True)
      fun t p => Blames nodes t p.1.output := by
  cases maxIterations with
  | zero => exact .ofResult trivial fun _ h => nomatch h
  | succ left => exact blames_rounds hb left [] input

end Loop

namespace Node

/-- What is said of the work of a node: whatever duration its output gets, it will name the
culprit. -/
private abbrev Names (n : Node) (A : TaskAccount (StepOutput × Course)) (input : StepInput) : Prop :=
  A.Says (fun _ => True) fun t p => ∀ o, n.Dates p.1 o →
    Blames [n] (.entered n.name input :: (t ++ [.gave n.name o])) o

private theorem blames_around {n : Node} {input : StepInput}
    {A : TaskAccount (StepOutput × Course)} (hA : Names n A input) :
    (n.Around input A).Says (fun _ => True) fun t p => Blames [n] t p.1 := by
  refine fun t r ht => ⟨trivial, fun p hp => ?_⟩
  cases ht with
  | idle | under h => cases hp
  | cancelled | fault h => cases hp
  | gave h hd hr =>
    cases hr _ hp
    exact (hA _ _ h).2 _ rfl _ hd

private theorem names_step (s : Step) (input : StepInput) :
    Names (step s) (s.calls input) input := by
  rintro t r ⟨⟨k, rfl⟩, hr⟩
  refine ⟨trivial, fun p hp o hd => ?_⟩
  rcases hr _ hp with ⟨fault, h, -⟩ | ⟨output, ms, h⟩
  · cases h
  cases h
  obtain rfl : o = s.stamp output ms := by simpa [Dates, Step.stamp, isLeaf] using hd
  refine ⟨fun hf => ?_, fun s' p hs hgave hf => ?_⟩
  · have hfails : output.success = false := hf
    simp only [Step.stamp, hfails, Bool.false_eq_true, if_false]
    cases output.error <;> rfl
  · obtain rfl : s' = s := by simpa [descendants, inside] using hs
    exact ⟨(culprit_step s').symm, s'.stamp output ms, by simp [name, Step.stamp], by
      rcases List.mem_cons.1 hgave with hgave | hgave
      · cases hgave
      · rcases List.mem_append.1 hgave with hgave | hgave
        · cases List.eq_of_mem_replicate hgave
        · cases List.mem_singleton.1 hgave
          exact hf, rfl⟩

private theorem names_group {n : Node} {name : String} {kind : ExecutorKind} {input : StepInput}
    {A : TaskAccount (Sequence × List Course)} (hn : (names [n]).Nodup) (hleaf : n.isLeaf = false)
    (hp : ∀ x, n.parallelOver x = false)
    (hA : A.Says (Order n.children) fun t p =>
      SequenceResult n.children t p.1 ∧ SequenceBlames n.children t p.1) :
    Names n (visitGroup name kind A) input := by
  refine .map (hA.mono (fun _ _ => trivial) fun t p _ hq o hd => .around hn hleaf hp ?_ hd)
  obtain ⟨q, visits⟩ := p
  obtain ⟨⟨hends, -⟩, hblames⟩ := hq
  cases q with
  | halted o => exact hblames o rfl
  | completed o next produced => exact .of_calm hends.1 (StepOutput.success_of_halts hends.2)
  | empty next => exact .of_calm hends rfl

/-- A parallel node answers for all that is below it. -/
private theorem names_parallel {name : String} {description : Option String} {children : List Node}
    {input : StepInput} (hn : (names [parallel name description children]).Nodup) :
    Names (parallel name description children)
      (visitWork input (parallel name description children)) input := by
  refine fun t r ht => ⟨trivial, fun p hp o hd => ?_⟩
  subst hp
  have hvisit : (parallel name description children).visit input
      (.entered name input :: (t ++ [.gave name o])) (some (.ok (o, p.2))) :=
    .gave ht hd fun _ hr => (Option.some.inj hr).symm
  have hresult : Result [parallel name description children]
      (.entered name input :: (t ++ [.gave name o])) o :=
    ((says_visit _ input hn _ _ hvisit).2 _ rfl).result
  obtain ⟨hname, hsuccess, herror⟩ := hd.named
  unfold visitWork at ht
  obtain ⟨q, -, hq⟩ := ht
  obtain ⟨results, -, hjoin⟩ := hq _ rfl
  obtain ⟨hstepName, hexplains⟩ : p.1.stepName = name ∧
      (p.1.success = false → p.1.error.isSome) := by
    unfold Join.result at hjoin
    split at hjoin
    · cases hjoin
    · obtain rfl := Except.ok.inj hjoin
      refine ⟨rfl, fun hf => ?_⟩
      simp only [Join.output] at hf ⊢
      simp [hf]
  refine ⟨fun hf => by rw [herror]; exact hexplains (hsuccess ▸ hf), fun s p' hs hgave hf => ?_⟩
  have hbelow : s.name ∈ names children := by
    rw [descendants_singleton] at hs
    exact List.mem_map_of_mem (by simpa [Node.children] using hs)
  refine ⟨by rw [hname, hstepName, culprit_parallel hbelow], o, ?_, hresult.fails _ p' hgave hf, rfl⟩
  rw [hname, hstepName]
  exact List.mem_cons_of_mem _ (List.mem_append_right _ (List.mem_singleton_self _))

private theorem blames_cons {n : Node} {rest : List Node} {input : StepInput}
    (hn : (names (n :: rest)).Nodup) (hv : Names n (visitWork input n) input)
    (hs : ∀ input, (visitSequence rest input).Says (fun _ => True)
      fun t p => SequenceBlames rest t p.1) :
    (visitSequence (n :: rest) input).Says (fun _ => True)
      fun t p => SequenceBlames (n :: rest) t p.1 := by
  have hhead := (PartOf.refl hn).head
  have htail := (PartOf.refl hn).tail
  unfold visitSequence
  refine .bind ((says_visit n input hhead.nodup).and (blames_around hv)) (fun _ _ => trivial)
    fun t p ht hp => ?_
  obtain ⟨o, c⟩ := p
  obtain ⟨hvisited, hblames⟩ := hp
  dsimp only
  split
  · refine .ret trivial fun o' ho' => ?_
    cases ho'
    rw [List.append_nil]
    exact hblames.part (t := []) hhead (fun _ => culprit_head hn) ht .nil
  · rename_i hh
    have hc : Calm t := hvisited.result.calm (by simpa using hh)
    refine .map (((says_sequence rest htail.nodup _).and (hs _)).mono (fun _ _ => trivial)
      fun u q hu hq o' ho' => ?_)
    have hhalted : q.1 = .halted o' := by
      obtain ⟨q, visits⟩ := q
      cases q with
      | halted o => exact ho'
      | completed | empty => cases ho'
    exact (hq.2 o' hhalted).part htail (fun _ => culprit_tail hn) hu hc

mutual

private theorem names_work (input : StepInput) : (n : Node) → (names [n]).Nodup →
    Names n (visitWork input n) input
  | .step s, _ => names_step s input
  | .steps name _ children, hn =>
    names_group hn rfl (fun _ => rfl) ((says_sequence children (nodup_children hn) input).and
      (blames_sequence children (nodup_children hn) input))
  | .condition name _ test children, hn => by
    unfold visitWork
    refine .given trivial fun holds _ => ?_
    split
    · exact names_group hn rfl (fun _ => rfl) ((says_sequence children (nodup_children hn) input).and
        (blames_sequence children (nodup_children hn) input))
    · exact .ret trivial fun o hd => .around hn rfl (fun _ => rfl) (.of_calm .nil rfl) hd
  | .loop name _ maxIterations ends children, hn => by
    have hbody (input : StepInput) :=
      (says_sequence children (nodup_children hn) input).and
        (blames_sequence children (nodup_children hn) input)
    unfold visitWork
    exact .map ((Loop.blames_visit hbody maxIterations input).mono (fun _ _ => trivial)
      fun t p _ hp o hd => .around hn rfl (fun _ => rfl) hp hd)
  | .parallel name description children, hn => names_parallel hn
  | .router name _ select choices, hn => by
    unfold visitWork
    refine .given trivial fun choice _ => ?_
    exact (blames_choice input choice.name choices (nodup_children hn)).mono (fun _ _ => trivial)
      fun t p _ hp o hd => .around hn rfl (fun _ => rfl) hp hd

private theorem blames_sequence : (nodes : List Node) → (names nodes).Nodup → (input : StepInput) →
    (visitSequence nodes input).Says (fun _ => True) fun t p => SequenceBlames nodes t p.1
  | [], _, _ => .ret trivial fun _ ho => nomatch ho
  | n :: rest, hn, input =>
    blames_cons hn (names_work input n ((PartOf.refl hn).head).nodup)
      (blames_sequence rest ((PartOf.refl hn).tail).nodup)

private theorem blames_choice (input : StepInput) (name : String) : (choices : List Node) →
    (names choices).Nodup →
    (visitChoice input name choices).Says (fun _ => True) fun t p => Blames choices t p.1
  | [], _ => .ofResult trivial fun _ h => nomatch h
  | n :: rest, hn => by
    have hhead := (PartOf.refl hn).head
    have htail := (PartOf.refl hn).tail
    unfold visitChoice
    split
    · exact ((says_visit n input hhead.nodup).and (blames_around
        (names_work input n hhead.nodup))).mono (fun _ _ => trivial) fun t p ht hp =>
          hp.2.part (t := []) hhead (fun _ => culprit_head hn) ht .nil
    · exact ((says_choice input name rest htail.nodup).and
        (blames_choice input name rest htail.nodup)).mono (fun _ _ => trivial) fun t p ht hp =>
          hp.2.part (t := []) htail (fun _ => culprit_tail hn) ht .nil

end

/-- The output of a visit names the culprit of every step that failed during it. -/
theorem blames_visit (n : Node) (input : StepInput) (hn : (names [n]).Nodup) :
    (n.visit input).Says (fun _ => True) fun t p => Blames [n] t p.1 :=
  blames_around (names_work input n hn)

end Node

end WorkflowEngine
