import WorkflowEngine.Engine.Journal
import WorkflowEngine.Proofs.Interleaving
import WorkflowEngine.Proofs.Node.Places

/-!
# The order of what happens

A history keeps the order of its nodes when, after an output that halts, nothing starts but what
runs in parallel. Histories without such an output may go before others; those of parallel children
may be interleaved.
-/

namespace WorkflowEngine

namespace Happening

/-- The node it happens to. -/
def node? : Happening → Option String
  | entered n _ | called n _ | gave n _ => some n
  | began _ | ended _ _ _ => none

/-- The node that starts, or whose executor does. -/
def starts? : Happening → Option String
  | entered n _ | called n _ => some n
  | _ => none

/-- Whether a node is entered. -/
def enters (x : String) : Happening → Bool
  | entered n _ => n == x
  | _ => false

theorem node?_of_starts? {h : Happening} {x : String} (hs : h.starts? = some x) :
    h.node? = some x := by
  cases h <;> first | exact hs | cases hs

end Happening

theorem StepOutput.success_of_halts {o : StepOutput} (h : o.halts = false) : o.success = true := by
  simp only [halts, Bool.or_eq_false_iff, Bool.not_eq_false'] at h
  exact h.2

namespace Node

/-- No output of the history halts. -/
def Calm (t : List Happening) : Prop := ∀ x o, .gave x o ∈ t → o.halts = false

namespace Calm

variable {t u : List Happening}

theorem nil : Calm [] := fun _ _ h => nomatch h

theorem append (ht : Calm t) (hu : Calm u) : Calm (t ++ u) := fun x o h =>
  (List.mem_append.1 h).elim (ht x o) (hu x o)

theorem success (ht : Calm t) {x : String} {o : StepOutput} (h : .gave x o ∈ t) :
    o.success = true :=
  StepOutput.success_of_halts (ht x o h)

end Calm

/-- After an output that halts nothing starts but what runs beside the node that gave it. -/
def Permits (nodes : List Node) (a b : Happening) : Prop := ∀ x o y,
  a = .gave x o → o.halts → b.starts? = some y → Beside nodes x y

/-- The history is one of some nodes, and no halting output is followed by what must not start. -/
structure Order (nodes : List Node) (t : List Happening) : Prop where
  node : ∀ h ∈ t, ∀ x, h.node? = some x → x ∈ names nodes
  after : t.Pairwise (Permits nodes)

namespace Order

variable {nodes : List Node} {t u : List Happening}

theorem nil : Order nodes [] := ⟨fun _ h => (nomatch h), .nil⟩

theorem mono {part : List Node} (hd : ∀ m ∈ descendants part, m ∈ descendants nodes)
    (h : Order part t) : Order nodes t := by
  refine ⟨fun a ha x hx => ?_, h.after.imp fun hab x o y ha ho hb => ?_⟩
  · obtain ⟨m, hm, rfl⟩ := List.mem_map.1 (h.node a ha x hx)
    exact List.mem_map_of_mem (hd m hm)
  · obtain ⟨name, description, children, hp, hxy⟩ := hab x o y ha ho hb
    exact ⟨name, description, children, hd _ hp, hxy⟩

/-- What comes after a history without a halting output keeps the order. -/
theorem append (ht : Order nodes t) (hc : Calm t) (hu : Order nodes u) : Order nodes (t ++ u) := by
  refine ⟨fun h hh => (List.mem_append.1 hh).elim (ht.node h) (hu.node h),
    List.pairwise_append.2 ⟨ht.after, hu.after, ?_⟩⟩
  rintro _ ha b - x o y rfl ho -
  rw [hc x o ha] at ho
  cases ho

theorem entered {x : String} (hx : x ∈ names nodes) (input : StepInput) (h : Order nodes t) :
    Order nodes (.entered x input :: t) := by
  refine ⟨fun a ha y hy => ?_, List.pairwise_cons.2 ⟨?_, h.after⟩⟩
  · rcases List.mem_cons.1 ha with rfl | ha
    · exact Option.some.inj hy ▸ hx
    · exact h.node a ha y hy
  · intro b _ z o y hb
    cases hb

theorem gave {x : String} (hx : x ∈ names nodes) (o : StepOutput) (h : Order nodes t) :
    Order nodes (t ++ [.gave x o]) := by
  refine ⟨fun a ha y hy => ?_, List.pairwise_append.2 ⟨h.after, List.pairwise_singleton _ _, ?_⟩⟩
  · rcases List.mem_append.1 ha with ha | ha
    · exact h.node a ha y hy
    · obtain rfl := List.mem_singleton.1 ha
      exact Option.some.inj hy ▸ hx
  · intro a _ b hb z p y _ _ hy
    obtain rfl := List.mem_singleton.1 hb
    cases hy

end Order

end Node

end WorkflowEngine
