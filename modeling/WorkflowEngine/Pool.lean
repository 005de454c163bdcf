/-!
# Pools

Values that several holders share, each known by its place.
-/

namespace WorkflowEngine

/-- The place of a value in a pool. -/
structure Ref (α : Type) where
  index : Nat

instance : DecidableEq (Ref α) := fun a b =>
  if h : a.index = b.index then isTrue (by cases a; cases b; simp_all)
  else isFalse fun e => h (e ▸ rfl)

structure Pool (α : Type) where
  items : List α := []

namespace Pool

instance : EmptyCollection (Pool α) := ⟨⟨[]⟩⟩

instance : Inhabited (Pool α) := ⟨∅⟩

def get? (p : Pool α) (r : Ref α) : Option α := p.items[r.index]?

def get [Inhabited α] (p : Pool α) (r : Ref α) : α := (p.get? r).getD default

def set (p : Pool α) (r : Ref α) (a : α) : Pool α := ⟨p.items.set r.index a⟩

def modify (p : Pool α) (r : Ref α) (f : α → α) : Pool α := ⟨p.items.modify r.index f⟩

/-- Adds a value and tells its place. -/
def add (p : Pool α) (a : α) : Ref α × Pool α := (⟨p.items.length⟩, ⟨p.items ++ [a]⟩)

theorem get?_add (p : Pool α) (a : α) : (p.add a).2.get? (p.add a).1 = some a := by
  simp [add, get?]

@[simp] theorem size_set (p : Pool α) (r : Ref α) (a : α) :
    (p.set r a).items.length = p.items.length := by
  simp [set]

theorem get?_set_ne (p : Pool α) {r r' : Ref α} (h : r' ≠ r) (a : α) :
    (p.set r a).get? r' = p.get? r' := by
  obtain ⟨i⟩ := r
  obtain ⟨j⟩ := r'
  have hij : i ≠ j := fun hij => h (hij ▸ rfl)
  simp [set, get?, hij]

theorem get?_set_self {p : Pool α} {r : Ref α} (h : r.index < p.items.length) (a : α) :
    (p.set r a).get? r = some a := by
  simp [set, get?, h]

theorem get?_set_map (p : Pool α) (r : Ref α) (a : α) :
    (p.set r a).get? r = (p.get? r).map fun _ => a := by
  simp only [set, get?, List.getElem?_set_self']
  rfl

theorem get_of_get? [Inhabited α] {p : Pool α} {r : Ref α} {a : α} (h : p.get? r = some a) :
    p.get r = a := by
  simp [get, h]

theorem get_set_self [Inhabited α] {p : Pool α} {r : Ref α} (h : r.index < p.items.length) (a : α) :
    (p.set r a).get r = a :=
  get_of_get? (get?_set_self h a)

theorem get_set_ne [Inhabited α] (p : Pool α) {r r' : Ref α} (h : r' ≠ r) (a : α) :
    (p.set r a).get r' = p.get r' := by
  rw [get, get, get?_set_ne p h]

theorem get_append_left [Inhabited α] {p : Pool α} {r : Ref α} (h : r.index < p.items.length)
    (a : α) : Pool.get ⟨p.items ++ [a]⟩ r = p.get r := by
  simp [get, get?, List.getElem?_append_left h]

theorem get_append_last [Inhabited α] (p : Pool α) (a : α) :
    Pool.get ⟨p.items ++ [a]⟩ ⟨p.items.length⟩ = a := by
  simp [get, get?]

@[simp] theorem size_modify (p : Pool α) (r : Ref α) (f : α → α) :
    (p.modify r f).items.length = p.items.length := by
  simp [modify]

theorem get?_modify_self (p : Pool α) (r : Ref α) (f : α → α) :
    (p.modify r f).get? r = (p.get? r).map f := by
  simp [modify, get?]

theorem get?_modify_ne (p : Pool α) {r r' : Ref α} (h : r' ≠ r) (f : α → α) :
    (p.modify r f).get? r' = p.get? r' := by
  obtain ⟨i⟩ := r
  obtain ⟨j⟩ := r'
  have hij : i ≠ j := fun hij => h (hij ▸ rfl)
  simp [modify, get?, hij]

theorem get_modify_self [Inhabited α] {p : Pool α} {r : Ref α} (h : r.index < p.items.length)
    (f : α → α) : (p.modify r f).get r = f (p.get r) := by
  simp [modify, get, get?, h]

/-- The value at a place after a value was changed somewhere is the one before, or what it was changed to. -/
theorem get_modify_cases [Inhabited α] (p : Pool α) (r r' : Ref α) (f : α → α) :
    (p.modify r f).get r' = p.get r' ∨
      r'.index < p.items.length ∧ r' = r ∧ (p.modify r f).get r' = f (p.get r') := by
  by_cases h : r' = r
  · subst h
    by_cases hr : r'.index < p.items.length
    · exact .inr ⟨hr, rfl, get_modify_self hr f⟩
    · exact .inl (by simp [modify, get, get?, hr])
  · exact .inl (by rw [get, get, get?_modify_ne p h])

/-- The value at a place after a value was set somewhere is that value or the one before. -/
theorem get_set_cases [Inhabited α] (p : Pool α) (r r' : Ref α) (a : α) :
    (p.set r a).get r' = a ∨ (p.set r a).get r' = p.get r' := by
  by_cases h : r' = r
  · subst h
    by_cases hr : r'.index < p.items.length
    · exact .inl (by simp [get, get?_set_self hr])
    · exact .inr (by simp [set, List.set_eq_of_length_le (Nat.le_of_not_lt hr)])
  · exact .inr (by simp [get, get?_set_ne p h])

end Pool

end WorkflowEngine
