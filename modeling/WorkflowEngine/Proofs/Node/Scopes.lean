import Mathlib.Data.List.DropRight
import WorkflowEngine.Proofs.Node.Order

/-!
# Sequences around nodes

Around a node stand the sequences in which it or a node above it has its turn: the nodes of the
workflow, and the children of each group, condition and loop above it. The children of a parallel
node and the choices of a router are no sequences. What the members of a sequence have completed
since its owner was last entered is read off the history.
-/

namespace WorkflowEngine

namespace Happening

/-- The node that is given an input, be it entered or its executor called, and the input. -/
def given? : Happening → Option (String × StepInput)
  | entered n input | called n input => some (n, input)
  | _ => none

theorem node?_of_given? {a : Happening} {x : String} {i : StepInput} (h : a.given? = some (x, i)) :
    a.node? = some x := by
  cases a <;> cases h <;> rfl

end Happening

namespace Node

/-- Nodes that run one after another: those of a workflow, or the children of an owner. -/
structure Scope where
  owner : Option String := none
  /-- Whether the members run again after the last of them. -/
  loops : Bool := false
  members : List Node

/-- The sequence that a node runs. -/
def scope? : Node → Option Scope
  | steps name _ children | condition name _ _ children =>
    some { owner := some name, members := children }
  | loop name _ _ _ children => some { owner := some name, loops := true, members := children }
  | step _ | parallel .. | router .. => none

mutual

/-- The sequences around a node that lies below another one, the outermost first. -/
def scopesBelow (x : String) : Node → List Scope
  | step _ => []
  | steps name _ children | condition name _ _ children =>
    { owner := some name, members := children } :: scopesAmong x children
  | loop name _ _ _ children =>
    { owner := some name, loops := true, members := children } :: scopesAmong x children
  | parallel _ _ children | router _ _ _ children => scopesAmong x children

/-- The sequences around a node that lies below one of some nodes. -/
def scopesAmong (x : String) : List Node → List Scope
  | [] => []
  | n :: rest => if x ∈ names n.children then scopesBelow x n else scopesAmong x rest

end

/-- The sequences around a node of a workflow, the outermost first. -/
def scopes (nodes : List Node) (x : String) : List Scope :=
  { members := nodes } :: scopesAmong x nodes

/-- What happened since a node was last entered; everything if it never was. -/
def since (y : String) (t : List Happening) : List Happening :=
  t.rtakeWhile fun a => !a.enters y

/-- The outputs that some nodes gave, each with the name of its node. -/
def outputsOf (members : List Node) (t : List Happening) : List (String × StepOutput) :=
  t.filterMap fun
    | .gave y o => if y ∈ members.map Node.name then some (y, o) else none
    | _ => none

/-- What has happened in the current execution of the owner. -/
def Scope.current (s : Scope) (t : List Happening) : List Happening :=
  match s.owner with
  | none => t
  | some y => since y t

/-- What the members have completed in the current execution of the owner, the latest last. -/
def Scope.completed (s : Scope) (t : List Happening) : List (String × StepOutput) :=
  outputsOf s.members (s.current t)

/-! ## Outputs of nodes -/

section Outputs

variable {members : List Node} {t u : List Happening}

@[simp] theorem outputsOf_nil : outputsOf members [] = [] := rfl

@[simp] theorem outputsOf_append :
    outputsOf members (t ++ u) = outputsOf members t ++ outputsOf members u :=
  List.filterMap_append ..

theorem outputsOf_gave {y : String} (hy : y ∈ members.map Node.name) (o : StepOutput) :
    outputsOf members [.gave y o] = [(y, o)] := by
  simp only [outputsOf, List.filterMap_cons, if_pos hy, List.filterMap_nil]

theorem outputsOf_cons_began (base : SessionState) :
    outputsOf members (.began base :: t) = outputsOf members t := rfl

theorem mem_outputsOf {y : String} {o : StepOutput} :
    (y, o) ∈ outputsOf members t ↔ .gave y o ∈ t ∧ y ∈ members.map Node.name := by
  simp only [outputsOf, List.mem_filterMap]
  constructor
  · rintro ⟨a, ha, h⟩
    cases a with
    | gave z p =>
      obtain ⟨hz, h⟩ := Option.ite_none_right_eq_some.1 h
      cases h
      exact ⟨ha, hz⟩
    | began | entered | called | ended => cases h
  · rintro ⟨ha, hy⟩
    exact ⟨_, ha, if_pos hy⟩

theorem outputsOf_eq_nil (h : ∀ y o, .gave y o ∈ t → y ∉ members.map Node.name) :
    outputsOf members t = [] :=
  List.eq_nil_iff_forall_not_mem.2 fun (y, o) ha =>
    h y o (mem_outputsOf.1 ha).1 (mem_outputsOf.1 ha).2

theorem outputsOf_filter {p : Happening → Bool}
    (hp : ∀ y o, y ∈ members.map Node.name → p (.gave y o)) :
    outputsOf members (t.filter p) = outputsOf members t := by
  induction t with
  | nil => rfl
  | cons a t ih =>
    rw [List.filter_cons]
    split
    · simp only [outputsOf, List.filterMap_cons] at ih ⊢
      rw [ih]
    · rename_i hpa
      rw [ih, ← List.singleton_append, outputsOf_append]
      refine (List.nil_append _).symm.trans (congrArg (· ++ _) (outputsOf_eq_nil ?_).symm)
      intro y o hy hmem
      obtain rfl := List.mem_singleton.1 hy
      exact hpa (hp y o hmem)

/-- More members have completed the same when the others gave nothing. -/
theorem outputsOf_congr {members' : List Node} (h : ∀ y o, .gave y o ∈ t →
    (y ∈ members.map Node.name ↔ y ∈ members'.map Node.name)) :
    outputsOf members t = outputsOf members' t := by
  refine List.filterMap_congr fun a ha => ?_
  cases a with
  | gave y o => simp only [h y o ha]
  | began | entered | called | ended => rfl

end Outputs

/-! ## Since an entry -/

section Since

variable {y : String} {t u : List Happening} {j : StepInput}

theorem since_entered (hu : ∀ j, .entered y j ∉ u) : since y (.entered y j :: u) = u := by
  have hall : u.reverse.takeWhile (fun a => !a.enters y) = u.reverse := by
    refine List.takeWhile_eq_self_iff.2 fun a ha => ?_
    cases a with
    | entered z i =>
      have hz : z ≠ y := fun hz => hu i (hz ▸ List.mem_reverse.1 ha)
      simpa [Happening.enters] using hz
    | began | called | gave | ended => rfl
  rw [since, List.rtakeWhile, List.reverse_cons, List.takeWhile_append, hall, if_pos rfl]
  simp [Happening.enters]

theorem since_append (hu : .entered y j ∈ u) : since y (t ++ u) = since y u := by
  simp only [since, List.rtakeWhile, List.reverse_append, List.reverse_inj]
  have hmem : .entered y j ∈ u.reverse := List.mem_reverse.2 hu
  generalize u.reverse = l at hmem
  induction l with
  | nil => cases hmem
  | cons a l ih =>
    rw [List.cons_append, List.takeWhile_cons, List.takeWhile_cons]
    rcases List.mem_cons.1 hmem with rfl | hmem
    · simp [Happening.enters]
    · rw [ih hmem]

theorem since_filter {p : Happening → Bool} (hp : ∀ j, p (.entered y j)) :
    since y (t.filter p) = (since y t).filter p := by
  simp only [since, List.rtakeWhile, ← List.filter_reverse]
  generalize t.reverse = l
  induction l with
  | nil => rfl
  | cons a l ih =>
    rw [List.filter_cons, List.takeWhile_cons]
    cases hy : a.enters y with
    | false => cases hpa : p a <;> simp [hpa, hy, ih]
    | true =>
      obtain ⟨j, rfl⟩ : ∃ j, a = .entered y j := by
        cases a with
        | entered z i => exact ⟨i, by rw [show z = y by simpa [Happening.enters] using hy]⟩
        | began | called | gave | ended => cases hy
      simp [hp j, hy]

end Since

/-! ## Sequences of a part of the tree -/

/-- Whether something happens to one of some nodes. -/
def concerns (part : List Node) (a : Happening) : Bool :=
  match a.node? with
  | some x => decide (x ∈ names part)
  | none => false

theorem concerns_of_node? {part : List Node} {a : Happening} {x : String} (h : a.node? = some x) :
    concerns part a = true ↔ x ∈ names part := by
  simp [concerns, h]

namespace Scope

variable {s : Scope} {part : List Node} {t u : List Happening}

/-- The sequence stands within some nodes: it has an owner, which is one of them. -/
structure BelongsTo (s : Scope) (part : List Node) : Prop where
  owner : ∃ y ∈ names part, s.owner = some y
  members : ∀ y ∈ s.members.map Node.name, y ∈ names part

/-- Other nodes do not change what a sequence has completed. -/
theorem BelongsTo.completed_filter (h : s.BelongsTo part) :
    s.completed (t.filter (concerns part)) = s.completed t := by
  obtain ⟨⟨y, hy, howner⟩, hmembers⟩ := h
  have hentered (j : StepInput) : concerns part (.entered y j) = true :=
    (concerns_of_node? rfl).2 hy
  simp only [completed, current, howner]
  rw [since_filter hentered]
  exact outputsOf_filter fun z _ hz => (concerns_of_node? rfl).2 (hmembers z hz)

/-- The owner, if there is one, was entered. -/
def Entered (s : Scope) (t : List Happening) : Prop := ∀ y, s.owner = some y → ∃ j, .entered y j ∈ t

/-- What came before the current execution of the owner does not matter. -/
theorem BelongsTo.completed_append (h : s.BelongsTo part) (hu : s.Entered u) :
    s.completed (t ++ u) = s.completed u := by
  obtain ⟨⟨y, -, howner⟩, -⟩ := h
  obtain ⟨j, hj⟩ := hu y howner
  simp only [completed, current, howner]
  rw [since_append hj]

end Scope

theorem scopesBelow_eq (x : String) (n : Node) :
    scopesBelow x n = n.scope?.toList ++ scopesAmong x n.children := by
  cases n with
  | step => simp [scopesBelow, scope?, children, scopesAmong]
  | steps | condition | loop | parallel | router => simp [scopesBelow, scope?, children]

theorem scope?_eq_some {n : Node} {s : Scope} (h : n.scope? = some s) :
    s.owner = some n.name ∧ s.members = n.children := by
  cases n <;> cases h <;> exact ⟨rfl, rfl⟩

private theorem belongsTo_of_children {x : String} {s : Scope} {n : Node}
    (hchildren : s ∈ scopesAmong x n.children → s.BelongsTo n.children)
    (h : s ∈ scopesBelow x n) : s.BelongsTo [n] := by
  rw [scopesBelow_eq] at h
  rcases List.mem_append.1 h with h | h
  · obtain ⟨howner, hmembers⟩ := scope?_eq_some (Option.mem_toList.1 h)
    refine ⟨⟨_, name_mem_names n, howner⟩, fun y hy => ?_⟩
    obtain ⟨m, hm, rfl⟩ := List.mem_map.1 hy
    exact names_children_subset (mem_names_of_mem (hmembers ▸ hm) (name_mem_names m))
  · obtain ⟨⟨y, hy, howner⟩, hmembers⟩ := hchildren h
    exact ⟨⟨y, names_children_subset hy, howner⟩, fun z hz => names_children_subset (hmembers z hz)⟩

mutual

private theorem belongsTo_of_below {x : String} {s : Scope} :
    (n : Node) → s ∈ scopesBelow x n → s.BelongsTo [n]
  | .step _, h => by simp [scopesBelow] at h
  | .steps _ _ children, h | .condition _ _ _ children, h | .loop _ _ _ _ children, h
  | .parallel _ _ children, h | .router _ _ _ children, h =>
    belongsTo_of_children (belongsTo_of_among children) h

/-- The sequences below some nodes have owners among these. -/
theorem belongsTo_of_among {x : String} {s : Scope} :
    (nodes : List Node) → s ∈ scopesAmong x nodes → s.BelongsTo nodes
  | [], h => by simp [scopesAmong] at h
  | n :: rest, h => by
    have hsub {part : List Node} (hp : ∀ y ∈ names part, y ∈ names (n :: rest))
        (hs : s.BelongsTo part) : s.BelongsTo (n :: rest) := by
      obtain ⟨⟨y, hy, howner⟩, hmembers⟩ := hs
      exact ⟨⟨y, hp y hy, howner⟩, fun z hz => hp z (hmembers z hz)⟩
    rw [scopesAmong] at h
    rw [names_cons] at hsub
    split at h
    · exact hsub (fun y hy => List.mem_append_left _ hy) (belongsTo_of_below n h)
    · exact hsub (fun y hy => List.mem_append_right _ hy) (belongsTo_of_among rest h)

end

private theorem scopesAmong_of_notMem {nodes : List Node} {x : String} (hx : x ∉ names nodes) :
    scopesAmong x nodes = [] := by
  induction nodes with
  | nil => simp [scopesAmong]
  | cons n rest ih =>
    rw [names_cons, List.mem_append, not_or] at hx
    rw [scopesAmong, if_neg fun h => hx.1 (names_children_subset h), ih hx.2]

section

variable {n : Node} {rest : List Node} {x : String}

/-- There is no sequence around a node below itself. -/
theorem scopesAmong_self (hn : (names [n]).Nodup) : scopesAmong n.name [n] = [] := by
  rw [names_singleton] at hn
  rw [scopesAmong, if_neg (List.nodup_cons.1 hn).1, scopesAmong]

theorem scopesAmong_children (hx : x ∈ names n.children) :
    scopesAmong x [n] = n.scope?.toList ++ scopesAmong x n.children := by
  rw [scopesAmong, if_pos hx, scopesBelow_eq]

theorem scopesAmong_head (hn : (names (n :: rest)).Nodup) (hx : x ∈ names [n]) :
    scopesAmong x (n :: rest) = scopesAmong x [n] := by
  rw [scopesAmong, scopesAmong]
  split
  · rfl
  · rw [names_cons] at hn
    exact scopesAmong_of_notMem fun hx' => (List.nodup_append.1 hn).2.2 x hx x hx' rfl

theorem scopesAmong_tail (hn : (names (n :: rest)).Nodup) (hx : x ∈ names rest) :
    scopesAmong x (n :: rest) = scopesAmong x rest := by
  rw [names_cons] at hn
  refine if_neg fun hx' => ?_
  exact (List.nodup_append.1 hn).2.2 x (names_children_subset hx') x hx rfl

end

/-! ## No member of two sequences -/

/-- No name is that of members of both sequences. -/
def Scope.Apart (s s' : Scope) : Prop :=
  ∀ y ∈ s.members.map Node.name, y ∉ s'.members.map Node.name

/-- The members of the sequences below some nodes are none of these. -/
theorem notMem_members {nodes : List Node} {x : String} {s : Scope} (hn : (names nodes).Nodup)
    (h : s ∈ scopesAmong x nodes) {y : String} (hy : y ∈ nodes.map Node.name) :
    y ∉ s.members.map Node.name := by
  induction nodes with
  | nil => cases hy
  | cons n rest ih =>
    have hne := hn
    rw [names_cons, names_singleton] at hne
    obtain ⟨hnodup, hrest, hdisjoint⟩ := List.nodup_append.1 hne
    rw [scopesAmong] at h
    split at h
    · intro hmem
      have hbelow : y ∈ names n.children := by
        rw [scopesBelow_eq] at h
        rcases List.mem_append.1 h with h | h
        · obtain ⟨m, hm, rfl⟩ := List.mem_map.1 hmem
          rw [(scope?_eq_some (Option.mem_toList.1 h)).2] at hm
          exact mem_names_of_mem hm (name_mem_names m)
        · exact (belongsTo_of_among _ h).members y hmem
      rcases List.mem_cons.1 hy with rfl | hy
      · exact (List.nodup_cons.1 hnodup).1 hbelow
      · obtain ⟨m, hm, rfl⟩ := List.mem_map.1 hy
        exact hdisjoint _ (List.mem_cons_of_mem _ hbelow) _ (mem_names_of_mem hm (name_mem_names m))
          rfl
    · rcases List.mem_cons.1 hy with rfl | hy
      · exact fun hmem => hdisjoint _ (List.mem_cons_self ..) _
          ((belongsTo_of_among rest h).members _ hmem) rfl
      · exact ih hrest h hy

private theorem apart_of_children {x : String} {n : Node} (hn : (names n.children).Nodup)
    (h : (scopesAmong x n.children).Pairwise Scope.Apart) :
    (scopesBelow x n).Pairwise Scope.Apart := by
  rw [scopesBelow_eq]
  cases hs : n.scope? with
  | none => exact h
  | some s =>
    refine List.pairwise_cons.2 ⟨fun s' hs' y hy => ?_, h⟩
    rw [(scope?_eq_some hs).2] at hy
    exact notMem_members hn hs' hy

mutual

private theorem apart_below (x : String) :
    (n : Node) → (names [n]).Nodup → (scopesBelow x n).Pairwise Scope.Apart
  | .step _, _ => by simp [scopesBelow]
  | .steps _ _ children, hn | .condition _ _ _ children, hn | .loop _ _ _ _ children, hn
  | .parallel _ _ children, hn | .router _ _ _ children, hn =>
    apart_of_children (nodup_children hn) (apart_among x children (nodup_children hn))

private theorem apart_among (x : String) :
    (nodes : List Node) → (names nodes).Nodup → (scopesAmong x nodes).Pairwise Scope.Apart
  | [], _ => by simp [scopesAmong]
  | n :: rest, hn => by
    rw [names_cons] at hn
    obtain ⟨hnodup, hrest, -⟩ := List.nodup_append.1 hn
    rw [scopesAmong]
    split
    · exact apart_below x n hnodup
    · exact apart_among x rest hrest

end

/-- No node of a workflow is a member of two sequences around another one. -/
theorem apart_scopes {nodes : List Node} (hn : (names nodes).Nodup) (x : String) :
    (scopes nodes x).Pairwise Scope.Apart :=
  List.pairwise_cons.2 ⟨fun _ hs _ hy => notMem_members hn hs hy, apart_among x nodes hn⟩

end Node

end WorkflowEngine
