/-!
# Maps keyed by text

Entries stand in the order of their keys, by code point, which is also the order of their bytes.
-/

namespace WorkflowEngine

/-- A map from texts to values. Every operation keeps the keys strictly increasing. -/
structure KeyMap (α : Type u) where
  entries : List (String × α) := []

namespace KeyMap

instance : EmptyCollection (KeyMap α) := ⟨⟨[]⟩⟩

instance : Inhabited (KeyMap α) := ⟨∅⟩

/-- The keys strictly increase. -/
def Sorted (m : KeyMap α) : Prop := m.entries.Pairwise (·.1 < ·.1)

def get? (m : KeyMap α) (key : String) : Option α := m.entries.lookup key

def contains (m : KeyMap α) (key : String) : Bool := (m.get? key).isSome

def size (m : KeyMap α) : Nat := m.entries.length

def isEmpty (m : KeyMap α) : Bool := m.entries.isEmpty

def keys (m : KeyMap α) : List String := m.entries.map (·.1)

def values (m : KeyMap α) : List α := m.entries.map (·.2)

def insertEntry (key : String) (value : α) : List (String × α) → List (String × α)
  | [] => [(key, value)]
  | (k, v) :: rest =>
    if key = k then (key, value) :: rest
    else if key < k then (key, value) :: (k, v) :: rest
    else (k, v) :: insertEntry key value rest

def insert (m : KeyMap α) (key : String) (value : α) : KeyMap α :=
  ⟨insertEntry key value m.entries⟩

def erase (m : KeyMap α) (key : String) : KeyMap α :=
  ⟨m.entries.filter (·.1 != key)⟩

/-- Of two entries with one key the later one stays. -/
def insertMany (m : KeyMap α) (entries : List (String × α)) : KeyMap α :=
  entries.foldl (fun m e => m.insert e.1 e.2) m

def ofList (entries : List (String × α)) : KeyMap α := insertMany ∅ entries

def modify (m : KeyMap α) (key : String) (f : α → α) : KeyMap α :=
  match m.get? key with
  | some value => m.insert key (f value)
  | none => m

/-! ## Reading -/

private theorem lookup_cons (key k : String) (v : α) (rest : List (String × α)) :
    ((k, v) :: rest).lookup key = if key = k then some v else rest.lookup key := by
  by_cases h : key = k <;> simp [List.lookup_cons, h, beq_eq_false_iff_ne.2]

theorem get?_insert (m : KeyMap α) (key key' : String) (value : α) :
    (m.insert key value).get? key' = if key' = key then some value else m.get? key' := by
  obtain ⟨l⟩ := m
  simp only [get?, insert]
  induction l with
  | nil => exact lookup_cons _ _ _ _
  | cons e rest ih =>
    obtain ⟨k, v⟩ := e
    unfold insertEntry
    split
    · subst k
      rw [lookup_cons, lookup_cons]
      split <;> rfl
    · split
      · exact lookup_cons _ _ _ _
      · rename_i hk _
        rw [lookup_cons, lookup_cons, ih]
        by_cases h : key' = k
        · subst h
          simp [Ne.symm hk]
        · simp [h]

theorem get?_erase (m : KeyMap α) (key key' : String) :
    (m.erase key).get? key' = if key' = key then none else m.get? key' := by
  obtain ⟨l⟩ := m
  simp only [get?, erase]
  induction l with
  | nil => split <;> rfl
  | cons e rest ih =>
    obtain ⟨k, v⟩ := e
    rw [List.filter_cons, lookup_cons]
    by_cases hk : k = key
    · subst hk
      simp only [bne_self_eq_false, Bool.false_eq_true, if_false, ih]
      split <;> rfl
    · simp only [bne_iff_ne, ne_eq, hk, not_false_eq_true, if_true, lookup_cons, ih]
      by_cases h : key' = k
      · subst h
        simp [hk]
      · simp [h]

theorem mem_keys {m : KeyMap α} {key : String} : key ∈ m.keys ↔ m.contains key = true := by
  obtain ⟨l⟩ := m
  simp only [keys, contains, get?]
  induction l with
  | nil => simp
  | cons e rest ih =>
    obtain ⟨k, v⟩ := e
    rw [List.map_cons, List.mem_cons, ih, lookup_cons]
    by_cases h : key = k <;> simp [h]

/-! ## Order -/

@[simp] theorem sorted_empty : (∅ : KeyMap α).Sorted := List.Pairwise.nil

private theorem mem_insertEntry {key : String} {value : α} {l : List (String × α)}
    {e : String × α} (h : e ∈ insertEntry key value l) : e = (key, value) ∨ e ∈ l := by
  induction l with
  | nil => simpa [insertEntry] using h
  | cons a rest ih =>
    obtain ⟨k, v⟩ := a
    unfold insertEntry at h
    split at h
    · rcases List.mem_cons.1 h with rfl | h <;> simp_all
    · split at h
      · rcases List.mem_cons.1 h with rfl | h <;> simp_all
      · rcases List.mem_cons.1 h with rfl | h
        · simp
        · rcases ih h with h | h <;> simp_all

private theorem fst_of_mem_insertEntry {key : String} {value : α} {l : List (String × α)}
    {e : String × α} (h : e ∈ insertEntry key value l) : e.1 = key ∨ e ∈ l :=
  (mem_insertEntry h).imp_left fun heq => by rw [heq]

private theorem lt_of_not_lt {a b : String} (hne : a ≠ b) (h : ¬ a < b) : b < a := by
  have hba : b ≤ a := Std.not_lt.1 h
  exact Std.lt_of_le_of_ne hba (Ne.symm hne)

theorem Sorted.insert {m : KeyMap α} (h : m.Sorted) (key : String) (value : α) :
    (m.insert key value).Sorted := by
  obtain ⟨l⟩ := m
  simp only [Sorted, KeyMap.insert] at h ⊢
  induction l with
  | nil => simp [insertEntry]
  | cons a rest ih =>
    obtain ⟨k, v⟩ := a
    obtain ⟨hk, hrest⟩ := List.pairwise_cons.1 h
    unfold insertEntry
    split
    · rename_i heq
      exact List.pairwise_cons.2 ⟨fun e he => heq ▸ hk e he, hrest⟩
    · split
      · rename_i hlt
        refine List.pairwise_cons.2 ⟨fun e he => ?_, h⟩
        rcases List.mem_cons.1 he with rfl | he
        · exact hlt
        · exact String.lt_trans hlt (hk e he)
      · rename_i hne hnot
        refine List.pairwise_cons.2 ⟨fun e he => ?_, ih hrest⟩
        rcases fst_of_mem_insertEntry he with heq | he
        · exact heq ▸ lt_of_not_lt hne hnot
        · exact hk e he

theorem Sorted.erase {m : KeyMap α} (h : m.Sorted) (key : String) : (m.erase key).Sorted :=
  h.filter _

theorem Sorted.insertMany {m : KeyMap α} (h : m.Sorted) (entries : List (String × α)) :
    (m.insertMany entries).Sorted := by
  induction entries generalizing m with
  | nil => exact h
  | cons e rest ih => exact ih (h.insert e.1 e.2)

theorem sorted_ofList (entries : List (String × α)) : (ofList entries).Sorted :=
  sorted_empty.insertMany entries

theorem Sorted.nodup_keys {m : KeyMap α} (h : m.Sorted) : m.keys.Nodup :=
  List.pairwise_map.2 (h.imp fun {a b} hlt (heq : a.1 = b.1) => String.lt_irrefl _ (heq ▸ hlt))

/-- An entry with a key past all others goes to the end. -/
private theorem insertEntry_concat {key : String} {value : α} {l : List (String × α)}
    (h : ∀ e ∈ l, e.1 < key) : insertEntry key value l = l ++ [(key, value)] := by
  induction l with
  | nil => rfl
  | cons e rest ih =>
    obtain ⟨k, v⟩ := e
    have hk : k < key := h (k, v) (by simp)
    have hne : key ≠ k := fun heq => String.lt_irrefl _ (heq ▸ hk)
    have hnot : ¬ key < k := fun hlt => String.lt_irrefl _ (String.lt_trans hk hlt)
    simp only [insertEntry, if_neg hne, if_neg hnot, List.cons_append,
      ih fun e he => h e (List.mem_cons_of_mem _ he)]

private theorem insertMany_append {m : KeyMap α} {entries : List (String × α)}
    (h : (m.entries ++ entries).Pairwise (·.1 < ·.1)) :
    m.insertMany entries = ⟨m.entries ++ entries⟩ := by
  induction entries generalizing m with
  | nil => simp [insertMany]
  | cons e rest ih =>
    have hlast : m.insert e.1 e.2 = ⟨m.entries ++ [e]⟩ := by
      have hlt : ∀ a ∈ m.entries, a.1 < e.1 := fun a ha =>
        (List.pairwise_append.1 h).2.2 a ha e (by simp)
      simp only [insert, insertEntry_concat hlt]
    have hsorted : ((m.entries ++ [e]) ++ rest).Pairwise (·.1 < ·.1) := by simpa using h
    have hrest := ih (m := ⟨m.entries ++ [e]⟩) hsorted
    simp only [insertMany, List.foldl_cons] at hrest ⊢
    rw [hlast, hrest, List.append_assoc, List.singleton_append]

/-- A map is what its entries make. -/
theorem Sorted.ofList_entries {m : KeyMap α} (h : m.Sorted) : ofList m.entries = m :=
  insertMany_append (m := ∅) h

theorem mem_insertMany {m : KeyMap α} {entries : List (String × α)} {e : String × α}
    (h : e ∈ (m.insertMany entries).entries) : e ∈ m.entries ∨ e ∈ entries := by
  induction entries generalizing m with
  | nil => exact .inl h
  | cons a rest ih =>
    obtain hm | hrest := ih h
    · obtain heq | hold := mem_insertEntry hm
      · exact .inr (by simp [heq])
      · exact .inl hold
    · exact .inr (List.mem_cons_of_mem _ hrest)

/-- A map made from a list holds entries of the list only. -/
theorem mem_of_mem_ofList {entries : List (String × α)} {e : String × α}
    (h : e ∈ (ofList entries).entries) : e ∈ entries :=
  (mem_insertMany h).resolve_left (by simp [EmptyCollection.emptyCollection])

end KeyMap

end WorkflowEngine
