import Mathlib.Data.List.Nodup
import WorkflowEngine.Node.Basic

/-!
# Places in trees

Where a node stands in a tree of nodes, told by its name: below which loop, and beside which other
nodes it runs.
-/

namespace WorkflowEngine.Node

theorem inside_eq (n : Node) : inside n = descendants n.children := by
  cases n with
  | step s => simp [inside, children, descendants]
  | steps | condition | loop | parallel | router => simp [inside, children]

theorem descendants_cons (n : Node) (rest : List Node) :
    descendants (n :: rest) = descendants [n] ++ descendants rest := by
  simp [descendants]

theorem mem_descendants_tail {n m : Node} {rest : List Node} (h : m ∈ descendants rest) :
    m ∈ descendants (n :: rest) := by
  rw [descendants_cons]
  exact List.mem_append_right _ h

theorem descendants_singleton (n : Node) : descendants [n] = n :: descendants n.children := by
  simp [descendants, inside_eq]

theorem mem_descendants_self (n : Node) : n ∈ descendants [n] := by simp [descendants]

theorem descendants_append (nodes nodes' : List Node) :
    descendants (nodes ++ nodes') = descendants nodes ++ descendants nodes' := by
  induction nodes with
  | nil => simp [descendants]
  | cons n rest ih => rw [List.cons_append, descendants_cons, ih, ← List.append_assoc,
      ← descendants_cons]

theorem names_cons (n : Node) (rest : List Node) : names (n :: rest) = names [n] ++ names rest := by
  rw [names, descendants_cons, List.map_append, names, names]

theorem names_singleton (n : Node) : names [n] = n.name :: names n.children := by
  rw [names, descendants_singleton, List.map_cons, names]

theorem name_mem_names (n : Node) : n.name ∈ names [n] := by simp [names_singleton]

theorem names_children_subset {n : Node} {x : String} (h : x ∈ names n.children) :
    x ∈ names [n] := by
  rw [names_singleton]
  exact List.mem_cons_of_mem _ h

theorem mem_names_of_mem {nodes : List Node} {n : Node} (h : n ∈ nodes) {x : String}
    (hx : x ∈ names [n]) : x ∈ names nodes := by
  induction nodes with
  | nil => cases h
  | cons m rest ih =>
    rw [names_cons]
    rcases List.mem_cons.1 h with rfl | h
    · exact List.mem_append_left _ hx
    · exact List.mem_append_right _ (ih h)

theorem exists_mem_of_mem_names {nodes : List Node} {x : String} (h : x ∈ names nodes) :
    ∃ n ∈ nodes, x ∈ names [n] := by
  induction nodes with
  | nil => simp [names, descendants] at h
  | cons n rest ih =>
    rw [names_cons] at h
    rcases List.mem_append.1 h with h | h
    · exact ⟨n, List.mem_cons_self .., h⟩
    · obtain ⟨m, hm, hx⟩ := ih h
      exact ⟨m, List.mem_cons_of_mem _ hm, hx⟩

theorem mem_descendants_of_mem {nodes : List Node} {n m : Node} (h : n ∈ nodes)
    (hm : m ∈ descendants [n]) : m ∈ descendants nodes := by
  induction nodes with
  | nil => cases h
  | cons k rest ih =>
    rw [descendants_cons]
    rcases List.mem_cons.1 h with rfl | h
    · exact List.mem_append_left _ hm
    · exact List.mem_append_right _ (ih h)

mutual

private theorem inside_sublist {n : Node} :
    (k : Node) → n ∈ inside k → (n :: inside n).Sublist (inside k)
  | .step _, h => by simp [inside] at h
  | .steps _ _ children, h | .condition _ _ _ children, h | .loop _ _ _ _ children, h
  | .parallel _ _ children, h | .router _ _ _ children, h => by
    unfold inside at h
    exact below_sublist children h

private theorem below_sublist {n : Node} :
    (nodes : List Node) → n ∈ descendants nodes → (n :: inside n).Sublist (descendants nodes)
  | [], h => by simp [descendants] at h
  | k :: rest, h => by
    rw [descendants] at h ⊢
    rcases List.mem_cons.1 h with rfl | h
    · exact (List.sublist_append_left ..).cons_cons _
    · refine .cons _ ?_
      rcases List.mem_append.1 h with h | h
      · exact (inside_sublist k h).trans (List.sublist_append_left ..)
      · exact (below_sublist rest h).trans (List.sublist_append_right ..)

end

/-- The tree below a node of some trees is part of them. -/
theorem sublist_of_mem {nodes : List Node} {n : Node} (h : n ∈ descendants nodes) :
    (descendants [n]).Sublist (descendants nodes) := by
  rw [descendants_singleton, ← inside_eq]
  exact below_sublist nodes h

/-- What lies below a node of some trees lies in them. -/
theorem descendants_trans {nodes : List Node} {n m : Node} (hn : n ∈ descendants nodes)
    (hm : m ∈ descendants n.children) : m ∈ descendants nodes := by
  refine (sublist_of_mem hn).subset ?_
  rw [descendants_singleton]
  exact List.mem_cons_of_mem _ hm

theorem nodup_of_mem {nodes : List Node} {n : Node} (hn : n ∈ descendants nodes)
    (h : (names nodes).Nodup) : (names [n]).Nodup :=
  ((sublist_of_mem hn).map Node.name).nodup h

theorem names_trans {nodes : List Node} {n : Node} (hn : n ∈ descendants nodes) {x : String}
    (hx : x ∈ names n.children) : x ∈ names nodes := by
  obtain ⟨m, hm, rfl⟩ := List.mem_map.1 hx
  exact List.mem_map_of_mem (descendants_trans hn hm)

theorem mem_descendants_children {n m : Node} (h : m ∈ descendants n.children) :
    m ∈ descendants [n] := by
  rw [descendants_singleton]
  exact List.mem_cons_of_mem _ h

theorem nodup_children {n : Node} (h : (names [n]).Nodup) : (names n.children).Nodup := by
  rw [names_singleton] at h
  exact (List.nodup_cons.1 h).2

theorem nodup_map_name {nodes : List Node} (h : (names nodes).Nodup) :
    (nodes.map Node.name).Nodup := by
  induction nodes with
  | nil => exact .nil
  | cons n rest ih =>
    rw [names_cons] at h
    obtain ⟨-, hrest, hne⟩ := List.nodup_append.1 h
    refine List.nodup_cons.2 ⟨fun hn => ?_, ih hrest⟩
    obtain ⟨m, hm, heq⟩ := List.mem_map.1 hn
    exact hne _ (name_mem_names n) _ (mem_names_of_mem hm (name_mem_names m)) heq.symm

/-- Where no two nodes have one name, a node is found by its name. -/
theorem find?_of_mem {nodes : List Node} (h : (names nodes).Nodup) {n : Node}
    (hn : n ∈ descendants nodes) : find? nodes n.name = some n := by
  rw [find?]
  rw [names] at h
  generalize descendants nodes = l at h hn
  induction l with
  | nil => cases hn
  | cons m rest ih =>
    obtain ⟨hm, hrest⟩ := List.nodup_cons.1 h
    rcases List.mem_cons.1 hn with rfl | hn
    · simp
    · have hne : m.name ≠ n.name := fun heq => hm (heq ▸ List.mem_map_of_mem hn)
      rw [List.find?_cons_of_neg (by simpa using hne), ih hrest hn]

/-! ## Around a node -/

/-- Whether a node is a loop over another one. -/
def loopsOver (x : String) : Node → Bool
  | loop _ _ _ _ children => decide (x ∈ names children)
  | _ => false

/-- The outermost loop over a node. -/
def outerLoop? (nodes : List Node) (x : String) : Option Node :=
  (descendants nodes).find? (loopsOver x)

/-- A node that runs in parallel with others. -/
def InParallel (nodes : List Node) (x : String) : Prop := ∃ name description children,
  parallel name description children ∈ descendants nodes ∧ x ∈ names children

/-- Two nodes below different children of a parallel one. -/
def Beside (nodes : List Node) (x y : String) : Prop := ∃ name description children,
  parallel name description children ∈ descendants nodes ∧
    ∃ c ∈ children, ∃ d ∈ children, c.name ≠ d.name ∧ x ∈ names [c] ∧ y ∈ names [d]

theorem beside_of_children {name : String} {description : Option String} {children : List Node}
    {c d : Node} (hc : c ∈ children) (hd : d ∈ children) (hne : c.name ≠ d.name) {x y : String}
    (hx : x ∈ names [c]) (hy : y ∈ names [d]) :
    Beside [parallel name description children] x y :=
  ⟨name, description, children, by simp [descendants_singleton], c, hc, d, hd, hne, hx, hy⟩

theorem names_of_loopsOver {n : Node} {x : String} (h : n.loopsOver x) : x ∈ names n.children := by
  cases n with
  | loop name description maxIterations ends children => exact of_decide_eq_true h
  | step | steps | condition | parallel | router => cases h

/-- Some trees that lie within others, where no node around them is a loop over one of theirs. -/
def Within (part whole : List Node) : Prop := ∃ l₁ l₂,
  descendants whole = l₁ ++ descendants part ++ l₂ ∧
    ∀ m ∈ l₁ ++ l₂, ∀ x ∈ names part, m.loopsOver x = false

namespace Within

variable {part whole : List Node}

theorem mem (h : Within part whole) {m : Node} (hm : m ∈ descendants part) :
    m ∈ descendants whole := by
  obtain ⟨l₁, l₂, hd, -⟩ := h
  simp [hd, hm]

theorem names (h : Within part whole) {x : String} (hx : x ∈ names part) : x ∈ names whole := by
  obtain ⟨m, hm, rfl⟩ := List.mem_map.1 hx
  exact List.mem_map_of_mem (h.mem hm)

theorem nodup (h : Within part whole) (hw : (Node.names whole).Nodup) :
    (Node.names part).Nodup := by
  obtain ⟨l₁, l₂, hd, -⟩ := h
  rw [Node.names, hd, List.map_append, List.map_append] at hw
  exact (List.nodup_append.1 (List.nodup_append.1 hw).1).2.1

/-- A node of the whole that has a name of the part lies in the part. -/
theorem mem_of_name (h : Within part whole) (hw : (Node.names whole).Nodup) {m : Node}
    (hm : m ∈ descendants whole) (hx : m.name ∈ Node.names part) : m ∈ descendants part := by
  obtain ⟨l₁, l₂, hd, -⟩ := h
  rw [Node.names, hd, List.map_append, List.map_append] at hw
  obtain ⟨h₁, -, h₂⟩ := List.nodup_append.1 hw
  obtain ⟨-, -, h₁⟩ := List.nodup_append.1 h₁
  rw [hd] at hm
  rcases List.mem_append.1 hm with hm | hm
  · rcases List.mem_append.1 hm with hm | hm
    · exact absurd rfl (h₁ _ (List.mem_map_of_mem hm) _ hx)
    · exact hm
  · exact absurd rfl (h₂ _ (List.mem_append_right _ hx) _ (List.mem_map_of_mem hm))

theorem outerLoop? (h : Within part whole) {x : String} (hx : x ∈ Node.names part) :
    Node.outerLoop? whole x = Node.outerLoop? part x := by
  obtain ⟨l₁, l₂, hd, hl⟩ := h
  have h₁ : l₁.find? (loopsOver x) = none :=
    List.find?_eq_none.2 fun m hm => by simp [hl m (by simp [hm]) x hx]
  have h₂ : l₂.find? (loopsOver x) = none :=
    List.find?_eq_none.2 fun m hm => by simp [hl m (by simp [hm]) x hx]
  rw [Node.outerLoop?, hd, List.find?_append, List.find?_append, h₁, h₂, Option.none_or,
    Option.or_none, Node.outerLoop?]

theorem inParallel (h : Within part whole) {x : String} (hx : InParallel part x) :
    InParallel whole x := by
  obtain ⟨name, description, children, hp, hx⟩ := hx
  exact ⟨name, description, children, h.mem hp, hx⟩

private theorem loopsOver_eq_false {nodes : List Node} {m : Node} (hm : m ∈ descendants nodes)
    {x : String} (hx : x ∉ Node.names nodes) : m.loopsOver x = false := by
  cases h : m.loopsOver x with
  | false => rfl
  | true => exact absurd (names_trans hm (names_of_loopsOver h)) hx

theorem head {n : Node} {rest : List Node} (hw : (Node.names (n :: rest)).Nodup) :
    Within [n] (n :: rest) := by
  refine ⟨[], descendants rest, by simp [descendants_cons n rest], fun m hm x hx => ?_⟩
  rw [names_cons] at hw
  exact loopsOver_eq_false hm fun hx' => (List.nodup_append.1 hw).2.2 x hx x hx' rfl

theorem tail {n : Node} {rest : List Node} (hw : (Node.names (n :: rest)).Nodup) :
    Within rest (n :: rest) := by
  refine ⟨descendants [n], [], by simp [descendants_cons n rest], fun m hm x hx => ?_⟩
  rw [names_cons] at hw
  rw [List.append_nil] at hm
  exact loopsOver_eq_false hm fun hx' => (List.nodup_append.1 hw).2.2 x hx' x hx rfl

/-- The children of a node that is no loop. -/
theorem children {n : Node} (hn : ∀ x, n.loopsOver x = false) : Within n.children [n] :=
  ⟨[n], [], by simp [descendants_singleton], fun m hm x _ => by
    obtain rfl : m = n := by simpa using hm
    exact hn x⟩

end Within

/-- Trees all of whose nodes are those of a whole, and no two of one name among either. -/
structure PartOf (part whole : List Node) : Prop where
  nodup_whole : (names whole).Nodup
  nodup : (names part).Nodup
  mem : ∀ m ∈ descendants part, m ∈ descendants whole

namespace PartOf

variable {part whole : List Node} {n : Node} {rest : List Node}

theorem refl (h : (names whole).Nodup) : PartOf whole whole := ⟨h, h, fun _ => id⟩

theorem head (h : PartOf (n :: rest) whole) : PartOf [n] whole where
  nodup_whole := h.nodup_whole
  nodup := by
    have hn := h.nodup
    rw [names_cons] at hn
    exact (List.nodup_append.1 hn).1
  mem := fun m hm => h.mem m (mem_descendants_of_mem (List.mem_cons_self ..) hm)

theorem tail (h : PartOf (n :: rest) whole) : PartOf rest whole where
  nodup_whole := h.nodup_whole
  nodup := by
    have hn := h.nodup
    rw [names_cons] at hn
    exact (List.nodup_append.1 hn).2.1
  mem := fun m hm => h.mem m (mem_descendants_tail hm)

theorem children (h : PartOf [n] whole) : PartOf n.children whole where
  nodup_whole := h.nodup_whole
  nodup := nodup_children h.nodup
  mem := fun m hm => h.mem m (mem_descendants_children hm)

/-- A node of the whole that has a name of the part lies in the part. -/
theorem mem_of_name (h : PartOf part whole) {m : Node} (hm : m ∈ descendants whole)
    (hx : m.name ∈ names part) : m ∈ descendants part := by
  obtain ⟨m', hm', hname⟩ := List.mem_map.1 hx
  have hfound := find?_of_mem h.nodup_whole (h.mem m' hm')
  rw [hname, find?_of_mem h.nodup_whole hm] at hfound
  rwa [Option.some.inj hfound]

theorem find? (h : PartOf [n] whole) : Node.find? whole n.name = some n :=
  find?_of_mem h.nodup_whole (h.mem n (by simp [descendants_singleton]))

end PartOf

end WorkflowEngine.Node
