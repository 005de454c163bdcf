import WorkflowEngine.Node.Execution

/-!
# Joined outputs

The map of outputs that a parallel node joins holds the output of every child and no other, as long
as the children have different names.
-/

namespace WorkflowEngine

namespace KeyMap

variable {α : Type} {m : KeyMap α} {l : List (String × α)} {key : String} {v : α}

theorem get?_insertMany_of_notMem (h : key ∉ l.map Prod.fst) :
    (m.insertMany l).get? key = m.get? key := by
  induction l generalizing m with
  | nil => rfl
  | cons e rest ih =>
    rw [List.map_cons, List.mem_cons, not_or] at h
    exact (ih h.2).trans (by rw [get?_insert, if_neg h.1])

theorem get?_insertMany_of_mem (hn : (l.map Prod.fst).Nodup) (h : (key, v) ∈ l) :
    (m.insertMany l).get? key = some v := by
  induction l generalizing m with
  | nil => cases h
  | cons e rest ih =>
    obtain ⟨hne, hrest⟩ := List.nodup_cons.1 hn
    rcases List.mem_cons.1 h with rfl | h
    · exact (get?_insertMany_of_notMem hne).trans (by rw [get?_insert, if_pos rfl])
    · exact ih hrest h

theorem mem_values_of_get? (h : m.get? key = some v) : v ∈ m.values := by
  obtain ⟨entries⟩ := m
  simp only [get?, values] at h ⊢
  induction entries with
  | nil => cases h
  | cons e rest ih =>
    rw [List.lookup_cons] at h
    split at h
    · cases h
      exact List.mem_cons_self ..
    · exact List.mem_cons_of_mem _ (ih h)

/-- A map made from a list whose keys are different has these keys. -/
theorem perm_keys_ofList (hn : (l.map Prod.fst).Nodup) : (ofList l).keys.Perm (l.map Prod.fst) := by
  refine (List.perm_ext_iff_of_nodup (sorted_ofList l).nodup_keys hn).2 fun key => ?_
  rw [mem_keys, contains]
  by_cases hkey : key ∈ l.map Prod.fst
  · obtain ⟨⟨_, v⟩, hv, rfl⟩ := List.mem_map.1 hkey
    rw [ofList, get?_insertMany_of_mem hn hv]
    exact ⟨fun _ => hkey, fun _ => rfl⟩
  · rw [ofList, get?_insertMany_of_notMem hkey]
    exact ⟨fun h => (by cases h), fun h => absurd h hkey⟩

theorem mem_values_insertMany (h : v ∈ (m.insertMany l).values) :
    v ∈ m.values ∨ v ∈ l.map Prod.snd := by
  obtain ⟨e, he, rfl⟩ := List.mem_map.1 h
  exact (mem_insertMany he).imp List.mem_map_of_mem List.mem_map_of_mem

end KeyMap

namespace Join

/-- Children without a fault have all given an output. -/
theorem eq_map_ok_of_fault? {results : List (Except Fault StepOutput)}
    (h : fault? results = none) : ∃ os : List StepOutput, results = os.map .ok := by
  induction results with
  | nil => exact ⟨[], rfl⟩
  | cons r rest ih =>
    cases r with
    | ok o =>
      obtain ⟨os, rfl⟩ := ih h
      exact ⟨o :: os, rfl⟩
    | error fault =>
      rw [fault?] at h
      split at h
      · cases h
      · split at h <;> cases h

/-- Results with values that are changed by a function, none of them a fault. -/
theorem eq_map_ok_of_map {α β : Type} {f : α → β} {results : List (Except Fault α)} {bs : List β}
    (h : results.map (Except.map f) = bs.map .ok) :
    ∃ as : List α, results = as.map .ok ∧ as.map f = bs := by
  induction results generalizing bs with
  | nil => exact ⟨[], rfl, by simpa using h⟩
  | cons r rest ih =>
    cases bs with
    | nil => cases h
    | cons b bs =>
      obtain ⟨hr, hrest⟩ := List.cons.inj h
      obtain ⟨as, rfl, rfl⟩ := ih hrest
      rcases r with fault | a
      · cases hr
      · cases hr
        exact ⟨a :: as, rfl, rfl⟩

private theorem fst_outputs_sublist (names : List String)
    (results : List (Except Fault StepOutput)) :
    (((names.zip results).filterMap fun (name, r) =>
      match r with
      | .ok output => some (name, output)
      | .error _ => none).map Prod.fst).Sublist names := by
  induction names generalizing results with
  | nil => simp
  | cons name rest ih =>
    cases results with
    | nil => simp
    | cons r results =>
      cases r with
      | ok o => simpa using (ih results).cons_cons name
      | error fault => simpa using (ih results).cons name

/-- Among children of different names no output takes the place of another. -/
theorem get?_outputs_of_mem {names : List String} (hn : names.Nodup)
    {results : List (Except Fault StepOutput)} {name : String} {o : StepOutput}
    (h : (name, .ok o) ∈ names.zip results) : (outputs names results).get? name = some o := by
  apply KeyMap.get?_insertMany_of_mem
  · exact (fst_outputs_sublist names results).nodup hn
  · exact List.mem_filterMap.2 ⟨(name, .ok o), h, rfl⟩

theorem get?_outputs {names : List String} (hn : names.Nodup) {os : List StepOutput}
    {name : String} {o : StepOutput} (h : (name, o) ∈ names.zip os) :
    (outputs names (os.map .ok)).get? name = some o := by
  apply get?_outputs_of_mem hn
  rw [List.zip_map_right]
  exact List.mem_map.2 ⟨(name, o), h, rfl⟩

theorem outputs_map_ok (names : List String) (os : List StepOutput) :
    outputs names (os.map .ok) = KeyMap.ofList (names.zip os) := by
  unfold outputs
  congr 1
  rw [List.zip_map_right, List.filterMap_map]
  exact List.filterMap_some

section Outputs

variable {names : List String} {os : List StepOutput} (hn : names.Nodup)
  (hlen : os.length = names.length)

include hn hlen

theorem perm_keys_outputs : (outputs names (os.map .ok)).keys.Perm names := by
  have hfst : (names.zip os).map Prod.fst = names := List.map_fst_zip (Nat.le_of_eq hlen.symm)
  rw [outputs_map_ok]
  exact (KeyMap.perm_keys_ofList (hfst.symm ▸ hn)).trans (List.Perm.of_eq hfst)

theorem mem_values_outputs {o : StepOutput} :
    o ∈ (outputs names (os.map .ok)).values ↔ o ∈ os := by
  have hsnd : (names.zip os).map Prod.snd = os := List.map_snd_zip (Nat.le_of_eq hlen)
  refine ⟨fun h => ?_, fun h => ?_⟩
  · rw [outputs_map_ok] at h
    rcases KeyMap.mem_values_insertMany h with h | h
    · cases h
    · rwa [hsnd] at h
  · rw [← hsnd] at h
    obtain ⟨⟨name, o⟩, hmem, rfl⟩ := List.mem_map.1 h
    exact KeyMap.mem_values_of_get? (get?_outputs hn hmem)

end Outputs

end Join

namespace Node

/-- Each child of a parallel node is executed by itself. -/
theorem runAll_eq_map {ctx : RunContext} (input : StepInput) (children : List Node) :
    runAll input ctx children = children.map fun n => (n.execute input ctx).run := by
  induction children with
  | nil => simp [runAll]
  | cons n rest ih => simp [runAll, execute, ih]

end Node

end WorkflowEngine
