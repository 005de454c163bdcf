import WorkflowEngine.Executor.Ready
import WorkflowEngine.Node.Execution
import WorkflowEngine.Node.Validation
import WorkflowEngine.Proofs.Node.Joining
import WorkflowEngine.Proofs.Node.Places
import WorkflowEngine.Proofs.Run.Values

/-!
# Valid trees

Validation visits the nodes of all trees in one order, each before the nodes below it, and checks
each given the names met before. Main statement: it accepts the well-formed trees and no others, and
refuses every other list with the first offence in this order; in what it accepts no loop is idle or
without a body, and no two children of a parallel node share a key.
-/

namespace WorkflowEngine

namespace Text

private theorem trimLeft_eq_nil (cs : List Char) : trimLeft cs = [] ↔ cs.all isBlank = true := by
  induction cs with
  | nil => simp [trimLeft]
  | cons c rest ih =>
    rw [trimLeft] at ih ⊢
    cases hc : isBlank c <;> simp [hc, ih]

private theorem all_trimLeft (cs : List Char) : (trimLeft cs).all isBlank = cs.all isBlank := by
  induction cs with
  | nil => rfl
  | cons c rest ih =>
    rw [trimLeft] at ih ⊢
    cases hc : isBlank c <;> simp [hc, ih]

theorem trim_eq_empty {s : String} : trim s = "" ↔ isAllBlank s = true := by
  have htrim : trim s = "" ↔ trimLeft (trimLeft s.toList).reverse = [] := by simp [trim]
  rw [htrim, trimLeft_eq_nil, List.all_reverse, all_trimLeft, isAllBlank]

end Text

namespace Node

/-! ## What is wrong with a node -/

/-- A node whose shape is wrong, with the fault that says so. -/
inductive Misshapen : Node → Fault → Prop
  | idle (name : String) (description : Option String)
      (ends : Option (List StepOutput → Except String Bool)) (children : List Node) :
      Misshapen (loop name description 0 ends children)
        (.invalidWorkflow ("loop '" ++ name ++ "' must allow at least one iteration"))
  | bodiless (name : String) (description : Option String) {maxIterations : Nat}
      (ends : Option (List StepOutput → Except String Bool)) (h : 1 ≤ maxIterations) :
      Misshapen (loop name description maxIterations ends [])
        (.invalidWorkflow ("loop '" ++ name ++ "' has no steps"))
  | childless (name : String) (description : Option String) :
      Misshapen (parallel name description [])
        (.invalidWorkflow ("parallel '" ++ name ++ "' has no steps"))
  | choiceless (name : String) (description : Option String)
      (select : StepInput → Except String String) :
      Misshapen (router name description select [])
        (.invalidWorkflow ("router '" ++ name ++ "' has no choices"))

/-- The fault of a node after nodes of some names: its name is empty, or was met before, or its
shape is wrong, and the first of these counts. -/
inductive Offends (met : List String) (n : Node) : Fault → Prop
  | unnamed (h : Text.trim n.name = "") :
      Offends met n (.invalidWorkflow (n.kind.name ++ " node has an empty name"))
  | repeated (h : Text.trim n.name ≠ "") (hmet : n.name ∈ met) :
      Offends met n (.duplicateStepName n.name)
  | misshapen {fault : Fault} (h : Text.trim n.name ≠ "") (hnew : n.name ∉ met)
      (hshape : Misshapen n fault) : Offends met n fault

/-- No node offends after those before it. -/
def Inoffensive (nodes : List Node) : Prop :=
  ∀ before n after, nodes = before ++ n :: after → ∀ fault, ¬ Offends (before.map Node.name) n fault

/-- The fault of the first node that offends after those before it. -/
def FirstOffence (nodes : List Node) (fault : Fault) : Prop :=
  ∃ before n after, nodes = before ++ n :: after ∧ Inoffensive before ∧
    Offends (before.map Node.name) n fault

/-- Trees that can be run. -/
structure WellFormed (nodes : List Node) : Prop where
  named : ∀ n ∈ descendants nodes, Text.trim n.name ≠ ""
  distinct : (names nodes).Nodup
  loops : ∀ name description maxIterations ends children,
    loop name description maxIterations ends children ∈ descendants nodes →
      1 ≤ maxIterations ∧ children ≠ []
  parallels : ∀ name description children,
    parallel name description children ∈ descendants nodes → children ≠ []
  routers : ∀ name description select choices,
    router name description select choices ∈ descendants nodes → choices ≠ []

theorem shapeFault?_eq_some {n : Node} {fault : Fault} :
    n.shapeFault? = some fault ↔ Misshapen n fault := by
  constructor
  · intro h
    cases n with
    | step | steps | condition => cases h
    | loop name description maxIterations ends children =>
      simp only [shapeFault?] at h
      split at h
      · rename_i hidle
        subst hidle
        cases h
        exact .idle ..
      · split at h
        · rename_i hloops hempty
          obtain rfl := List.isEmpty_iff.1 hempty
          cases h
          exact .bodiless _ _ _ (Nat.one_le_iff_ne_zero.2 hloops)
        · cases h
    | parallel name description children =>
      cases children with
      | nil =>
        cases h
        exact .childless ..
      | cons child rest => cases h
    | router name description select choices =>
      cases choices with
      | nil =>
        cases h
        exact .choiceless ..
      | cons choice rest => cases h
  · intro h
    cases h with
    | idle => rfl
    | bodiless name description ends h => simp [shapeFault?, Nat.one_le_iff_ne_zero.1 h]
    | childless => rfl
    | choiceless => rfl

theorem ownFault?_eq_some {met : List String} {n : Node} {fault : Fault} :
    n.ownFault? met = some fault ↔ Offends met n fault := by
  unfold ownFault?
  constructor
  · intro h
    split at h
    · rename_i hblank
      cases h
      exact .unnamed (Text.trim_eq_empty.2 hblank)
    · rename_i hnamed
      have htrim : Text.trim n.name ≠ "" := mt Text.trim_eq_empty.1 hnamed
      split at h
      · rename_i hmet
        cases h
        exact .repeated htrim hmet
      · rename_i hnew
        exact .misshapen htrim hnew (shapeFault?_eq_some.1 h)
  · intro h
    cases h with
    | unnamed h => simp [Text.trim_eq_empty.1 h]
    | repeated h hmet => simp [mt Text.trim_eq_empty.2 h, hmet]
    | misshapen h hnew hshape =>
      simp [mt Text.trim_eq_empty.2 h, hnew, shapeFault?_eq_some.2 hshape]

theorem ownFault?_eq_none {met : List String} {n : Node} :
    n.ownFault? met = none ↔ ∀ fault, ¬ Offends met n fault := by
  simp only [Option.eq_none_iff_forall_ne_some, ne_eq, ownFault?_eq_some]

/-! ## The walk through the trees -/

mutual

private theorem validate_eq (met : List String) :
    (n : Node) → validate met n = (descendants [n]).foldlM own met
  | .step s => by simp [validate, descendants, inside]
  | .steps _ _ children | .condition _ _ _ children | .loop _ _ _ _ children
  | .parallel _ _ children | .router _ _ _ children => by
    simp only [validate, descendants, inside, List.append_nil, List.foldlM_cons]
    congr 1
    funext met'
    exact validateAll_eq met' children

/-- Trees are checked one node after another, each before the nodes below it. -/
private theorem validateAll_eq (met : List String) :
    (nodes : List Node) → validateAll met nodes = (descendants nodes).foldlM own met
  | [] => rfl
  | n :: rest => by
    rw [validateAll, validate_eq met n, descendants_cons n rest, List.foldlM_append]
    congr 1
    funext met'
    exact validateAll_eq met' rest

end

/-- No node offends after those before it, with some names met before the first. -/
private def Clear (met : List String) (nodes : List Node) : Prop :=
  ∀ before n after, nodes = before ++ n :: after →
    n.ownFault? ((before.map Node.name).reverse ++ met) = none

private theorem clear_cons {met : List String} {n : Node} {rest : List Node} :
    Clear met (n :: rest) ↔ n.ownFault? met = none ∧ Clear (n.name :: met) rest := by
  constructor
  · intro h
    refine ⟨h [] n rest rfl, ?_⟩
    intro before m after hrest
    simpa using h (n :: before) m after (by simp [hrest])
  · rintro ⟨hown, hrest⟩ before m after hsplit
    cases before with
    | nil =>
      obtain ⟨rfl, -⟩ := List.cons.inj hsplit
      exact hown
    | cons k before =>
      obtain ⟨rfl, htail⟩ := List.cons.inj hsplit
      simpa using hrest before m after htail

private theorem own_ok {met : List String} {n : Node} (h : n.ownFault? met = none) :
    own met n = .ok (n.name :: met) := by
  simp [own, h]

private theorem own_error {met : List String} {n : Node} {fault : Fault}
    (h : n.ownFault? met = some fault) : own met n = .error fault := by
  simp [own, h]

private theorem foldlM_own_ok {met : List String} {nodes : List Node} (h : Clear met nodes) :
    nodes.foldlM own met = .ok ((nodes.map Node.name).reverse ++ met) := by
  induction nodes generalizing met with
  | nil => rfl
  | cons n rest ih =>
    obtain ⟨hown, hrest⟩ := clear_cons.1 h
    rw [List.foldlM_cons, own_ok hown]
    simpa [bind, Except.bind] using ih hrest

private theorem foldlM_own_error {met : List String} {before after : List Node} {n : Node}
    {fault : Fault} (h : Clear met before)
    (hn : n.ownFault? ((before.map Node.name).reverse ++ met) = some fault) :
    (before ++ n :: after).foldlM own met = .error fault := by
  rw [List.foldlM_append, foldlM_own_ok h]
  simp [bind, Except.bind, List.foldlM_cons, own_error hn]

/-- Either no node offends, or one is the first that does. -/
private theorem clear_or_offence (met : List String) (nodes : List Node) :
    Clear met nodes ∨ ∃ before n after fault, nodes = before ++ n :: after ∧ Clear met before ∧
      n.ownFault? ((before.map Node.name).reverse ++ met) = some fault := by
  induction nodes generalizing met with
  | nil =>
    left
    intro before n after h
    simp at h
  | cons n rest ih =>
    cases hown : n.ownFault? met with
    | some fault =>
      right
      refine ⟨[], n, rest, fault, rfl, ?_, by simpa using hown⟩
      intro before m after h
      simp at h
    | none =>
      rcases ih (n.name :: met) with hclear | ⟨before, m, after, fault, rfl, hclear, hm⟩
      · exact .inl (clear_cons.2 ⟨hown, hclear⟩)
      · right
        exact ⟨n :: before, m, after, fault, rfl, clear_cons.2 ⟨hown, hclear⟩, by simpa using hm⟩

private theorem ownFault?_congr {met met' : List String} (h : ∀ name, name ∈ met ↔ name ∈ met')
    {n : Node} : n.ownFault? met = n.ownFault? met' := by
  simp [ownFault?, h]

private theorem ownFault?_reverse (before : List Node) (n : Node) :
    n.ownFault? ((before.map Node.name).reverse ++ []) = n.ownFault? (before.map Node.name) :=
  ownFault?_congr fun name => by simp

private theorem clear_iff {nodes : List Node} : Clear [] nodes ↔ Inoffensive nodes := by
  simp only [Clear, Inoffensive, ownFault?_reverse, ownFault?_eq_none]

/-- Validation accepts what has no offence. -/
theorem validateNodes_eq_ok {nodes : List Node} :
    validateNodes nodes = .ok () ↔ Inoffensive (descendants nodes) := by
  rw [← clear_iff]
  simp only [validateNodes, validateAll_eq]
  constructor
  · intro h
    rcases clear_or_offence [] (descendants nodes) with hclear | ⟨_, _, _, _, heq, hclear, hn⟩
    · exact hclear
    · rw [heq, foldlM_own_error hclear hn] at h
      cases h
  · intro h
    rw [foldlM_own_ok h]
    rfl

/-- Validation refuses everything else, with its first offence. -/
theorem validateNodes_eq_error {nodes : List Node} {fault : Fault} :
    validateNodes nodes = .error fault ↔ FirstOffence (descendants nodes) fault := by
  simp only [validateNodes, validateAll_eq]
  constructor
  · intro h
    rcases clear_or_offence [] (descendants nodes) with hclear | ⟨before, n, after, _, heq, hclear, hn⟩
    · rw [foldlM_own_ok hclear] at h
      cases h
    · rw [heq, foldlM_own_error hclear hn] at h
      cases h
      rw [ownFault?_reverse, ownFault?_eq_some] at hn
      exact ⟨before, n, after, heq, clear_iff.1 hclear, hn⟩
  · rintro ⟨before, n, after, heq, hclear, hn⟩
    rw [← ownFault?_eq_some, ← ownFault?_reverse] at hn
    rw [heq, foldlM_own_error (clear_iff.2 hclear) hn]
    rfl

/-! ## Well-formed trees -/

/-- Names that are neither met before nor repeated, and nothing wrong with any node, is all it
takes. -/
private theorem clear_iff_forall {met : List String} {nodes : List Node} :
    Clear met nodes ↔ (∀ n ∈ nodes, Text.trim n.name ≠ "" ∧ n.shapeFault? = none ∧ n.name ∉ met) ∧
      (nodes.map Node.name).Nodup := by
  induction nodes generalizing met with
  | nil => simp [Clear]
  | cons n rest ih =>
    have hown : n.ownFault? met = none ↔
        Text.trim n.name ≠ "" ∧ n.shapeFault? = none ∧ n.name ∉ met := by
      simp only [ownFault?, ne_eq, Text.trim_eq_empty]
      split
      · simp_all
      · split <;> simp_all
    rw [clear_cons, ih, hown, List.forall_mem_cons, List.map_cons, List.nodup_cons]
    simp only [List.mem_cons, not_or, List.mem_map, not_exists, not_and]
    constructor
    · rintro ⟨hn, hrest, hnodup⟩
      refine ⟨⟨hn, ?_⟩, ?_, hnodup⟩
      · intro m hm
        obtain ⟨hnamed, hshape, -, hnew⟩ := hrest m hm
        exact ⟨hnamed, hshape, hnew⟩
      · intro m hm
        obtain ⟨-, -, hne, -⟩ := hrest m hm
        exact hne
    · rintro ⟨⟨hn, hrest⟩, hne, hnodup⟩
      refine ⟨hn, ?_, hnodup⟩
      intro m hm
      obtain ⟨hnamed, hshape, hnew⟩ := hrest m hm
      exact ⟨hnamed, hshape, hne m hm, hnew⟩

private theorem inoffensive_iff {nodes : List Node} :
    Inoffensive (descendants nodes) ↔
      (∀ n ∈ descendants nodes, Text.trim n.name ≠ "" ∧ n.shapeFault? = none) ∧
        (names nodes).Nodup := by
  rw [← clear_iff, clear_iff_forall]
  simp [names]

/-- In a tree that passes validation no name is used twice. -/
theorem nodup_of_validateNodes {nodes : List Node} (h : validateNodes nodes = .ok ()) :
    (names nodes).Nodup :=
  (inoffensive_iff.1 (validateNodes_eq_ok.1 h)).2

/-- In a tree that passes validation nothing is wrong with any node. -/
theorem shapeFault?_of_validateNodes {nodes : List Node} (h : validateNodes nodes = .ok ())
    {m : Node} (hm : m ∈ descendants nodes) : m.shapeFault? = none :=
  ((inoffensive_iff.1 (validateNodes_eq_ok.1 h)).1 m hm).2

theorem validateNodes_iff {nodes : List Node} :
    validateNodes nodes = .ok () ↔ WellFormed nodes := by
  rw [validateNodes_eq_ok, inoffensive_iff]
  simp only [Option.eq_none_iff_forall_ne_some, ne_eq, shapeFault?_eq_some]
  constructor
  · rintro ⟨h, hnodup⟩
    refine ⟨fun n hn => (h n hn).1, hnodup, ?_, ?_, ?_⟩
    · intro name description maxIterations ends children hmem
      have hmax : 1 ≤ maxIterations := by
        rcases Nat.eq_zero_or_pos maxIterations with rfl | hpos
        · exact absurd (.idle ..) ((h _ hmem).2 _)
        · exact hpos
      refine ⟨hmax, ?_⟩
      rintro rfl
      exact (h _ hmem).2 _ (.bodiless name description ends hmax)
    · rintro name description _ hmem rfl
      exact (h _ hmem).2 _ (.childless name description)
    · rintro name description select _ hmem rfl
      exact (h _ hmem).2 _ (.choiceless name description select)
  · intro h
    refine ⟨?_, h.distinct⟩
    intro n hn
    refine ⟨h.named n hn, ?_⟩
    rintro fault (⟨name, description, ends, children⟩ | ⟨name, description, ends, -⟩ |
      ⟨name, description⟩ | ⟨name, description, select⟩)
    · exact absurd (h.loops _ _ _ _ _ hn).1 (by simp)
    · exact (h.loops _ _ _ _ _ hn).2 rfl
    · exact h.parallels _ _ _ hn rfl
    · exact h.routers _ _ _ _ hn rfl

/-! ## What no valid tree reaches -/

/-- A sequence of nodes does not end as one without nodes. -/
theorem gives_runSequence_ne_empty {ctx : RunContext} {nodes : List Node} (h : nodes ≠ [])
    (input : StepInput) :
    RunTask.Gives (runSequence ctx nodes input) fun s => ∀ next, s ≠ .empty next := by
  cases nodes with
  | nil => exact absurd rfl h
  | cons n rest =>
    rw [runSequence]
    apply RunTask.Gives.after_any
    intro output
    split
    · apply RunTask.Gives.pure
      simp
    · apply RunTask.Gives.after_any
      intro s
      apply RunTask.Gives.pure
      cases s <;> simp [Sequence.after]

theorem loop_run_eq_iterate {name : String} {maxIterations : Nat}
    {ends : Option (List StepOutput → Except String Bool)} {ctx : RunContext}
    {body : StepInput → RunTask Sequence} (h : 1 ≤ maxIterations) (input : StepInput) :
    Loop.run name maxIterations ends ctx body input =
      Loop.iterate name maxIterations ends ctx body (maxIterations - 1) [] input := by
  obtain ⟨left, rfl⟩ := Nat.exists_eq_add_of_le' h
  rfl

/-- The law of validation: it accepts the well-formed lists of trees, and refuses every other one
with its first offence. In what it accepts a loop always comes to its iterations, its body is never
found empty, and the outputs of parallel children never stand under one key. -/
theorem validation_law (nodes : List Node) :
    (validateNodes nodes = .ok () ↔ WellFormed nodes) ∧
    (∀ fault, validateNodes nodes = .error fault ↔ FirstOffence (descendants nodes) fault) ∧
    (validateNodes nodes = .ok () →
      (∀ name description maxIterations ends children,
        loop name description maxIterations ends children ∈ descendants nodes →
        ∀ (ctx : RunContext) (input : StepInput),
          Loop.run name maxIterations ends ctx (runSequence ctx children) input =
            Loop.iterate name maxIterations ends ctx (runSequence ctx children)
              (maxIterations - 1) [] input ∧
          ∀ (others : Engine → Engine → Prop) (e e' : Engine) (r : Except Fault Sequence),
            Fiber.Evolves others (runSequence ctx children input).run e (.done r) e' →
            ∀ next, r ≠ .ok (.empty next)) ∧
      ∀ name description children, parallel name description children ∈ descendants nodes →
        ∀ (results : List (Except Fault StepOutput)) (child : String) (output : StepOutput),
          (child, .ok output) ∈ (children.map Node.name).zip results →
          (Join.outputs (children.map Node.name) results).get? child = some output) := by
  refine ⟨validateNodes_iff, fun fault => validateNodes_eq_error, ?_⟩
  intro hvalid
  have hwell : WellFormed nodes := validateNodes_iff.1 hvalid
  constructor
  · intro name description maxIterations ends children hmem ctx input
    obtain ⟨hmax, hbody⟩ := hwell.loops _ _ _ _ _ hmem
    refine ⟨loop_run_eq_iterate hmax input, ?_⟩
    intro others e e' r he next hr
    exact (gives_runSequence_ne_empty hbody input).of_evolves he _ hr next rfl
  · intro name description children hmem results child output hchild
    have hnames : (names children).Nodup :=
      nodup_children (n := parallel name description children) (nodup_of_mem hmem hwell.distinct)
    exact Join.get?_outputs_of_mem (nodup_map_name hnames) hchild

private def polished (name : String) : Node := step { name, executor := .echo "polish" .agent }

private def pair : List Node := [polished "left", polished "right"]

private def rounds : List Node :=
  [parallel "both" none pair,
    router "pick" none (fun _ => .ok "one") [polished "one", polished "other"]]

/-- The second use of a name comes before a loop that cannot iterate. -/
private def confused : List Node :=
  [steps "all" none [polished "one", polished "one"], loop "never" none 0 none []]

theorem validation_law_rounds :
    WellFormed [loop "rounds" none 2 none rounds] ∧
    (∀ ctx input, Loop.run "rounds" 2 none ctx (runSequence ctx rounds) input =
      Loop.iterate "rounds" 2 none ctx (runSequence ctx rounds) 1 [] input) ∧
    (Join.outputs ["left", "right"] [.ok {}, .error .cancelled]).get? "left" = some {} ∧
    FirstOffence (descendants confused) (.duplicateStepName "one") := by
  have hvalid : validateNodes [loop "rounds" none 2 none rounds] = .ok () := by rfl
  obtain ⟨hwell, -, hreached⟩ := validation_law [loop "rounds" none 2 none rounds]
  obtain ⟨hloops, hparallels⟩ := hreached hvalid
  refine ⟨hwell.1 hvalid, ?_, ?_, ?_⟩
  · intro ctx input
    exact (hloops "rounds" none 2 none rounds (by simp [descendants]) ctx input).1
  · exact hparallels "both" none pair (by simp [rounds, descendants, inside])
      [.ok {}, .error .cancelled] "left" {} (by simp [pair, polished, name])
  · exact ((validation_law confused).2.1 _).1 (by rfl)

end Node

end WorkflowEngine
