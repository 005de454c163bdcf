import Mathlib.Data.List.Induction
import WorkflowEngine.Engine.Journal
import WorkflowEngine.Proofs.Json.Numbers
import WorkflowEngine.Session.State

/-!
# Merging session states

What a merged state holds under each key, and the laws of merging forks that follow from it: each
key of a state is merged on its own. The completed runs in a journal are such forks, each with the
state it began on and its working copy at its end.
-/

namespace WorkflowEngine.SessionState

theorem get?_insert (s : SessionState) (key key' : String) (v : Json) :
    (s.insert key v).get? key' = if key' = key then some v else s.get? key' :=
  KeyMap.get?_insert s.map key key' v

theorem get?_erase (s : SessionState) (key key' : String) :
    (s.erase key).get? key' = if key' = key then none else s.get? key' :=
  KeyMap.get?_erase s.map key key'

/-- No key below all others is found. -/
private theorem lookup_eq_none {l : List (String × Json)} {key : String}
    (h : ∀ e ∈ l, key < e.1) : l.lookup key = none := by
  refine List.lookup_eq_none_iff.2 fun e he => ?_
  simpa using fun hk : key = e.1 => String.lt_irrefl _ (hk ▸ h e he)

private theorem key_le {k k' : String} {v v' : Json} {l l' : List (String × Json)}
    (h : ∀ e ∈ l', k' < e.1) (hg : ((k, v) :: l).lookup k = ((k', v') :: l').lookup k) :
    ¬ k < k' := by
  intro hlt
  have hnone : ((k', v') :: l').lookup k = none := by
    refine lookup_eq_none fun e he => ?_
    rcases List.mem_cons.1 he with rfl | he
    · exact hlt
    · exact String.lt_trans hlt (h e he)
  simp [hnone] at hg

private theorem eq_of_lookup {l l' : List (String × Json)} (h : l.Pairwise (·.1 < ·.1))
    (h' : l'.Pairwise (·.1 < ·.1)) (hg : ∀ key, l.lookup key = l'.lookup key) : l = l' := by
  induction l generalizing l' with
  | nil =>
    cases l' with
    | nil => rfl
    | cons e' rest' =>
      obtain ⟨k', v'⟩ := e'
      simpa [List.lookup_cons] using hg k'
  | cons e rest ih =>
    obtain ⟨k, v⟩ := e
    cases l' with
    | nil => simpa [List.lookup_cons] using hg k
    | cons e' rest' =>
      obtain ⟨k', v'⟩ := e'
      obtain ⟨hlt, hrest⟩ := List.pairwise_cons.1 h
      obtain ⟨hlt', hrest'⟩ := List.pairwise_cons.1 h'
      have hle : k' ≤ k := Std.not_lt.1 (key_le hlt' (hg k))
      have hle' : k ≤ k' := Std.not_lt.1 (key_le hlt (hg k').symm)
      obtain rfl : k = k' := Std.le_antisymm hle' hle
      have hv : v = v' := by simpa [List.lookup_cons] using hg k
      rw [hv, ih hrest hrest' fun key => ?_]
      by_cases hk : key = k
      · rw [hk, lookup_eq_none hlt, lookup_eq_none hlt']
      · have hne : (key == k) = false := by simpa using hk
        simpa [List.lookup_cons, hne] using hg key

/-- A state is what it holds under every key. -/
theorem ext_get? {s s' : SessionState} (h : ∀ key, s.get? key = s'.get? key) : s = s' := by
  obtain ⟨⟨l⟩, hl⟩ := s
  obtain ⟨⟨l'⟩, hl'⟩ := s'
  obtain rfl : l = l' := eq_of_lookup hl hl' h
  rfl

/-- A set entry counts unless the base holds the same value. -/
private theorem get?_applySets (base s : SessionState) {entries : List (String × Json)}
    (h : entries.Pairwise (·.1 < ·.1)) (key : String) :
    (applySets base s entries).get? key =
      match entries.lookup key with
      | none => s.get? key
      | some v =>
        match base.get? key with
        | none => some v
        | some old => if old.same v then s.get? key else some v := by
  induction entries generalizing s with
  | nil => rfl
  | cons e rest ih =>
    obtain ⟨k, v⟩ := e
    obtain ⟨hk, hrest⟩ := List.pairwise_cons.1 h
    by_cases heq : key = k
    · subst heq
      have hnone : rest.lookup key = none := lookup_eq_none hk
      unfold applySets
      cases hbase : base.get? key with
      | none => simp [ih _ hrest, hnone, get?_insert]
      | some old =>
        dsimp only
        rw [ih _ hrest, hnone]
        by_cases hsame : old.same v <;> simp [hsame, get?_insert]
    · have hlookup : ((k, v) :: rest).lookup key = rest.lookup key := by
        simp [List.lookup_cons, beq_eq_false_iff_ne.2 heq]
      rw [hlookup]
      unfold applySets
      cases base.get? k with
      | none => rw [ih _ hrest, get?_insert, if_neg heq]
      | some old =>
        have hkeep : (if old.same v then s else s.insert k v).get? key = s.get? key := by
          split
          · rfl
          · rw [get?_insert, if_neg heq]
        dsimp only
        rw [ih _ hrest, hkeep]

private theorem get?_applyRemovals (changed s : SessionState) (keys : List String) (key : String) :
    (applyRemovals changed s keys).get? key =
      if key ∈ keys ∧ changed.contains key = false then none else s.get? key := by
  induction keys generalizing s with
  | nil => simp [applyRemovals]
  | cons k rest ih =>
    unfold applyRemovals
    rw [ih]
    by_cases heq : key = k
    · subst heq
      cases hc : changed.contains key <;> simp [get?_erase]
    · cases changed.contains k <;> simp [get?_erase, heq]

/-- A merge takes over what was changed and keeps everything else. -/
theorem get?_merge (s base changed : SessionState) (key : String) :
    (merge s base changed).get? key =
      if base.agreeAt changed key then s.get? key else changed.get? key := by
  have hbase : key ∈ base.keys ↔ (base.get? key).isSome := KeyMap.mem_keys
  have hchanged : changed.contains key = (changed.get? key).isSome := rfl
  have hsets : (applySets base s changed.entries).get? key = _ :=
    get?_applySets base s changed.sorted key
  have hlookup : changed.map.entries.lookup key = changed.get? key := rfl
  rw [merge, get?_applyRemovals, hsets, hlookup]
  simp only [hbase, hchanged]
  unfold agreeAt
  cases base.get? key with
  | none => cases changed.get? key <;> simp
  | some old =>
    cases changed.get? key with
    | none => simp
    | some v => cases old.same v <;> simp

/-- Every value is one that a document can hold. -/
def InRange (s : SessionState) : Prop := ∀ key v, s.get? key = some v → v.InRange

theorem agreeAt_self {s : SessionState} (h : s.InRange) (key : String) :
    s.agreeAt s key = true := by
  unfold agreeAt
  cases hget : s.get? key with
  | none => rfl
  | some v => exact (h key v hget).same_self

/-- A fork that changed nothing leaves the state alone. -/
theorem merge_of_agreeAt {base changed : SessionState}
    (h : ∀ key, base.agreeAt changed key = true) (s : SessionState) : merge s base changed = s := by
  apply ext_get?
  intro key
  simp [get?_merge, h key]

theorem merge_merge_self (s base changed : SessionState) :
    merge (merge s base changed) base changed = merge s base changed := by
  apply ext_get?
  intro key
  rw [get?_merge, get?_merge]
  split <;> rfl

/-- A state that nobody touched since it was forked becomes what the fork is. -/
theorem agreeAt_merge_base (base : SessionState) {changed : SessionState} (h : changed.InRange)
    (key : String) : (merge base base changed).agreeAt changed key = true := by
  have hself : changed.agreeAt changed key = true := agreeAt_self h key
  have hget : (merge base base changed).get? key =
      if base.agreeAt changed key then base.get? key else changed.get? key := get?_merge ..
  by_cases hagree : base.agreeAt changed key = true
  · rw [if_pos hagree] at hget
    simpa only [agreeAt, hget] using hagree
  · rw [if_neg hagree] at hget
    simpa only [agreeAt, hget] using hself

section Forks

variable {base first second : SessionState}
  (hdisjoint : ∀ key, base.agreeAt first key = true ∨ base.agreeAt second key = true)

include hdisjoint

/-- What both forks changed or kept stands in the state that both were merged into. -/
theorem get?_merge_merge (s : SessionState) (key : String) :
    (merge (merge s base first) base second).get? key =
      if base.agreeAt first key then
        if base.agreeAt second key then s.get? key else second.get? key
      else first.get? key := by
  rw [get?_merge, get?_merge]
  rcases hdisjoint key with h | h
  · rw [if_pos h, if_pos h]
  · rw [if_pos h, if_pos h]

theorem merge_merge_comm (s : SessionState) :
    merge (merge s base first) base second = merge (merge s base second) base first := by
  apply ext_get?
  intro key
  rw [get?_merge_merge hdisjoint, get?_merge_merge fun key => (hdisjoint key).symm]
  rcases hdisjoint key with h | h
  · simp [h]
  · simp [h]

end Forks

/-- The law of merging: a key holds what the fork made of it if the fork changed it, and what it
held otherwise. So a fork without a change leaves everything alone, an untouched base becomes the
fork, a second merge of one fork adds nothing, and forks of one base that changed no key in common
can be merged in either order, with the sets and removals of both in the result. -/
theorem merge_law (s base changed : SessionState) :
    (∀ key, (merge s base changed).get? key =
      if base.agreeAt changed key then s.get? key else changed.get? key) ∧
    (base.InRange → merge s base base = s) ∧
    ((∀ key, base.agreeAt changed key = true) → merge s base changed = s) ∧
    (changed.InRange → ∀ key, (merge base base changed).agreeAt changed key = true) ∧
    merge (merge s base changed) base changed = merge s base changed ∧
    ∀ other : SessionState,
      (∀ key, base.agreeAt changed key = true ∨ base.agreeAt other key = true) →
      merge (merge s base changed) base other = merge (merge s base other) base changed ∧
      ∀ key,
        (base.agreeAt changed key = false →
          (merge (merge s base changed) base other).get? key = changed.get? key) ∧
        (base.agreeAt other key = false →
          (merge (merge s base changed) base other).get? key = other.get? key) ∧
        (base.agreeAt changed key = true → base.agreeAt other key = true →
          (merge (merge s base changed) base other).get? key = s.get? key) := by
  have hunchanged (h : base.InRange) : merge s base base = s :=
    merge_of_agreeAt (agreeAt_self h) s
  refine ⟨get?_merge s base changed, hunchanged, fun h => merge_of_agreeAt h s,
    fun h => agreeAt_merge_base base h, merge_merge_self s base changed, ?_⟩
  intro other hdisjoint
  refine ⟨merge_merge_comm hdisjoint s, ?_⟩
  intro key
  rw [get?_merge_merge hdisjoint]
  refine ⟨?_, ?_, ?_⟩
  · intro h
    simp [h]
  · intro h
    have hfirst : base.agreeAt changed key = true := (hdisjoint key).resolve_right (by simp [h])
    simp [h, hfirst]
  · intro hfirst hsecond
    simp [hfirst, hsecond]

private theorem inRange_of_entries {s : SessionState} (h : ∀ e ∈ s.entries, e.2.InRange) :
    s.InRange := by
  intro key v hget
  have hlookup : s.entries.lookup key = some v := hget
  obtain ⟨l, r, hentries, -⟩ := List.lookup_eq_some_iff.1 hlookup
  exact h (key, v) (by simp [hentries])

private def forked : SessionState :=
  ((∅ : SessionState).insert "shared" (.int 0)).insert "total" (.int 1)

/-- Removes a key. -/
private def pruned : SessionState := forked.erase "shared"

/-- Makes a float of a whole number. -/
private def widened : SessionState := forked.insert "total" (.float (Binary64.ofInt 1))

/-- What became of the base meanwhile. -/
private def advanced : SessionState := (forked.insert "shared" (.int 5)).insert "added" (.int 2)

private theorem forked_agreeAt (key : String) :
    forked.agreeAt pruned key = true ∨ forked.agreeAt widened key = true := by
  by_cases hshared : key = "shared"
  · subst hshared
    exact .inr (by decide +kernel)
  · by_cases htotal : key = "total"
    · subst htotal
      exact .inl (by decide +kernel)
    · have hforked : forked.get? key = none := by
        simp only [forked, get?_insert, hshared, htotal, if_false]
        rfl
      simp [agreeAt, pruned, get?_erase, hforked, hshared]

theorem merge_law_forks :
    merge advanced forked forked = advanced ∧
    (∀ key, (merge forked forked pruned).agreeAt pruned key = true) ∧
    merge (merge advanced forked pruned) forked widened =
      merge (merge advanced forked widened) forked pruned ∧
    (merge (merge advanced forked pruned) forked widened).entries =
      [("added", .int 2), ("total", .float (Binary64.ofInt 1))] := by
  have hint (n : Nat) (hn : n < 2) : (Json.int n).InRange :=
    .int (by simp [Word.signedEnd]) (by simp only [Word.unsignedEnd]; omega)
  have hforked : forked.InRange := by
    apply inRange_of_entries
    have hentries : forked.entries = [("shared", .int (0 : Nat)), ("total", .int (1 : Nat))] := by rfl
    simp only [hentries, List.forall_mem_cons]
    exact ⟨hint 0 (by omega), hint 1 (by omega), by simp⟩
  have hpruned : pruned.InRange := by
    intro key v hget
    rw [pruned, get?_erase] at hget
    split at hget
    · cases hget
    · exact hforked key v hget
  obtain ⟨-, hunchanged, -, hbase, -, hforks⟩ := merge_law advanced forked pruned
  obtain ⟨hcomm, -⟩ := hforks widened forked_agreeAt
  exact ⟨hunchanged hforked, hbase hpruned, hcomm, by rfl⟩

end WorkflowEngine.SessionState

/-! ## Completions -/

namespace WorkflowEngine

namespace Journal

/-- The committed state that a run began on. -/
def base? : Journal → String → Option SessionState
  | [], _ => none
  | (id, .began base) :: earlier, runId => if id = runId then some base else base? earlier runId
  | _ :: earlier, runId => base? earlier runId

/-- The completed runs in the order of their ends: what each began on, and its working copy. -/
def completions : Journal → List (SessionState × SessionState)
  | [] => []
  | (id, .ended _ run final) :: earlier =>
    if run.status = .completed then completions earlier ++ [((base? earlier id).getD ∅, final)]
    else completions earlier
  | _ :: earlier => completions earlier

theorem base?_append_inner {t : List Happening} (h : ∀ a ∈ t, a.isInner) (id runId : String)
    (j : Journal) : base? (t.map (fun a => (id, a)) ++ j) runId = base? j runId := by
  induction t with
  | nil => rfl
  | cons a t ih =>
    have ha := h a (by simp)
    have ht := ih fun b hb => h b (by simp [hb])
    cases a with
    | began base => cases ha
    | ended fault run final => cases ha
    | _ => simpa [base?] using ht

theorem completions_append_inner {t : List Happening} (h : ∀ a ∈ t, a.isInner) (id : String)
    (j : Journal) : completions (t.map (fun a => (id, a)) ++ j) = completions j := by
  induction t with
  | nil => rfl
  | cons a t ih =>
    have ha := h a (by simp)
    have ht := ih fun b hb => h b (by simp [hb])
    cases a with
    | began base => cases ha
    | ended fault run final => cases ha
    | _ => simpa [completions] using ht

end Journal

namespace SessionState

/-- Merges what completed runs changed, one after another. -/
def mergeAll (s : SessionState) (runs : List (SessionState × SessionState)) : SessionState :=
  runs.foldl (fun s run => s.merge run.1 run.2) s

theorem mergeAll_concat (s : SessionState) (runs : List (SessionState × SessionState))
    (base final : SessionState) :
    s.mergeAll (runs ++ [(base, final)]) = (s.mergeAll runs).merge base final := by
  simp [mergeAll]

/-- The last of some runs that changed a key relative to what it began on. -/
def lastChange? (key : String) (runs : List (SessionState × SessionState)) :
    Option (SessionState × SessionState) :=
  runs.reverse.find? fun run => !run.1.agreeAt run.2 key

/-- Under each key stands what the last run left there that changed it. -/
theorem get?_mergeAll (s : SessionState) (runs : List (SessionState × SessionState)) (key : String) :
    (s.mergeAll runs).get? key =
      match lastChange? key runs with
      | some run => run.2.get? key
      | none => s.get? key := by
  induction runs using List.reverseRecOn with
  | nil => rfl
  | append_singleton runs run ih =>
    rw [mergeAll_concat, get?_merge, ih]
    unfold lastChange?
    rw [List.reverse_append, List.reverse_singleton, List.singleton_append, List.find?_cons]
    cases run.1.agreeAt run.2 key <;> rfl

end SessionState

end WorkflowEngine
