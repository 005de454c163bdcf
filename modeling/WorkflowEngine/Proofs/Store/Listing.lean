import WorkflowEngine.Proofs.Store.Agreement

/-!
# Listing sessions

Whatever is called of a memory or of a table that is empty at first, it holds the sessions that were
stored and not deleted since, each of them once. Both list all of these, and no others, as they are
read, the latest change first. A table compares times by their texts, which are in the order of the
instants as long as the years have four digits.
-/

namespace WorkflowEngine

open List

/-! ## Rows of a table -/

namespace SessionRow

/-- One row for each session, and times of change that are in the order of their texts. -/
structure Tidy (rows : List SessionRow) : Prop where
  distinct : (rows.map (·.sessionId)).Nodup
  dated : ∀ row ∈ rows, ∃ t : Instant, t.Ordinary ∧ row.updatedAt = t.rowText

variable {row : SessionRow} {rows : List SessionRow} {r : SessionRecord} {now : Instant}

namespace Tidy

theorem nil : Tidy [] := ⟨nodup_nil, nofun⟩

theorem put (h : Tidy rows) (hrow : ∃ t : Instant, t.Ordinary ∧ row.updatedAt = t.rowText) :
    Tidy (row.put rows) where
  distinct := nodup_put row h.distinct
  dated old hold := by
    obtain hmem | ⟨createdAt, rfl⟩ := mem_put hold
    · exact h.dated old hmem
    · exact hrow

theorem filter (h : Tidy rows) (p : SessionRow → Bool) : Tidy (rows.filter p) :=
  ⟨h.distinct.sublist (filter_sublist.map _), fun row hrow => h.dated row (mem_filter.1 hrow).1⟩

theorem select (h : Tidy rows) (workflowId : Option String) : Tidy (select workflowId rows) where
  distinct := ((mergeSort_perm _ _).map _).nodup_iff.2 (h.filter _).distinct
  dated row hrow := h.dated row (mem_select.1 hrow).1

/-- What is read of a session is what one of the rows is read as. -/
theorem read_iff (h : Tidy rows) : ((Store.table rows).read r.sessionId now).1 = .ok (some r) ↔
    ∃ row ∈ rows, row.toRecord now = .ok r := by
  unfold Store.read
  dsimp only
  constructor
  · intro hread
    cases hrow : rows.find? (·.sessionId == r.sessionId) with
    | none => simp [hrow] at hread
    | some row =>
      refine ⟨row, mem_of_find?_eq_some hrow, ?_⟩
      cases hrecord : row.toRecord now <;> simp_all [Except.map]
  · rintro ⟨row, hrow, hrecord⟩
    rw [(of_toRecord hrecord).1, find?_of_mem_of_nodup_map h.distinct hrow]
    simp [hrecord, Except.map]

/-- If no session fails to be read, every row can be read. -/
theorem toRecord_of_read (h : Tidy rows)
    (hread : ∀ id, ∃ found, ((Store.table rows).read id now).1 = .ok found)
    (hrow : row ∈ rows) : ∃ r, row.toRecord now = .ok r := by
  obtain ⟨found, hfound⟩ := hread row.sessionId
  rw [Store.read, find?_of_mem_of_nodup_map h.distinct hrow] at hfound
  cases hrecord : row.toRecord now with
  | error fault => simp [hrecord, Except.map] at hfound
  | ok r => exact ⟨r, rfl⟩

/-- What a row is read as has the time of its text. -/
theorem updatedAt_of_toRecord (h : Tidy rows) (hrow : row ∈ rows) (hrecord : row.toRecord now = .ok r) :
    r.updatedAt.Ordinary ∧ row.updatedAt = r.updatedAt.rowText := by
  obtain ⟨t, ht, htext⟩ := h.dated row hrow
  have htime : r.updatedAt = t := by
    rw [(of_toRecord hrecord).2.2.1, htext, ht.ofRowText?_rowText, Option.getD_some]
  rw [htime]
  exact ⟨ht, htext⟩

end Tidy

theorem mem_toOption_toRecord : r ∈ (row.toRecord now).toOption ↔ row.toRecord now = .ok r := by
  cases row.toRecord now <;> simp [Except.toOption]

theorem latest_select (workflowId : Option String) (rows : List SessionRow) :
    (select workflowId rows).Pairwise fun a b => b.updatedAt ≤ a.updatedAt := by
  have hsorted : (select workflowId rows).Pairwise fun a b =>
      decide (b.updatedAt ≤ a.updatedAt) = true := by
    refine pairwise_mergeSort (fun a b c hab hbc => ?_) (fun a b => ?_) _
    · exact decide_eq_true (String.le_trans (of_decide_eq_true hbc) (of_decide_eq_true hab))
    · simpa using String.le_total b.updatedAt a.updatedAt
  exact hsorted.imp of_decide_eq_true

namespace Tidy

/-- What rows are read as is one record for each session. -/
theorem nodup_records (h : Tidy rows) (now : Instant) :
    ((rows.filterMap fun row => (row.toRecord now).toOption).map (·.sessionId)).Nodup := by
  refine pairwise_map.2 ((pairwise_map.1 h.distinct).filterMap _ fun a b hne r hr r' hr' heq => hne ?_)
  rw [← (of_toRecord (mem_toOption_toRecord.1 hr)).1,
    ← (of_toRecord (mem_toOption_toRecord.1 hr')).1, heq]

/-- Rows in the order of the texts of their times are read as records in the order of the times. -/
theorem latest_records (h : Tidy rows) (hsorted : rows.Pairwise fun a b => b.updatedAt ≤ a.updatedAt)
    (now : Instant) :
    SessionRecord.Latest (rows.filterMap fun row => (row.toRecord now).toOption) := by
  have htimes : rows.Pairwise fun a b => ∀ r r', a.toRecord now = .ok r →
      b.toRecord now = .ok r' → r'.updatedAt.le r.updatedAt = true := by
    refine hsorted.imp_of_mem fun {a b} ha hb hle r r' hr hr' => ?_
    obtain ⟨hdate, htext⟩ := h.updatedAt_of_toRecord ha hr
    obtain ⟨hdate', htext'⟩ := h.updatedAt_of_toRecord hb hr'
    rw [← Instant.rowText_le hdate'.valid hdate.valid hdate'.year hdate.year, decide_eq_true_eq,
      ← htext, ← htext']
    exact hle
  exact htimes.filterMap _ fun a b hle r hr r' hr' =>
    hle r r' (mem_toOption_toRecord.1 hr) (mem_toOption_toRecord.1 hr')

/-- Rows that can all be read are listed as they are read. -/
theorem list (h : Tidy rows)
    (hread : ∀ id, ∃ found, ((Store.table rows).read id now).1 = .ok found)
    (workflowId : Option String) : ∃ rs, (Store.table rows).list workflowId now = .ok rs ∧
      (rs.map (·.sessionId)).Nodup ∧ SessionRecord.Latest rs ∧
      ∀ r, r ∈ rs ↔ ((Store.table rows).read r.sessionId now).1 = .ok (some r) ∧
        workflowId.all (· == r.workflowId) = true := by
  have hrows : ∀ row ∈ SessionRow.select workflowId rows, ∃ r, row.toRecord now = .ok r :=
    fun row hrow => h.toRecord_of_read hread (mem_select.1 hrow).1
  refine ⟨_, mapM_toRecord hrows, (h.select workflowId).nodup_records now,
    (h.select workflowId).latest_records (latest_select workflowId rows) now, fun r => ?_⟩
  rw [h.read_iff, mem_filterMap]
  constructor
  · rintro ⟨row, hrow, hr⟩
    obtain ⟨hrow, hlisted⟩ := mem_select.1 hrow
    have hrecord := mem_toOption_toRecord.1 hr
    exact ⟨⟨row, hrow, hrecord⟩, (of_toRecord hrecord).2.1 ▸ hlisted⟩
  · rintro ⟨⟨row, hrow, hrecord⟩, hlisted⟩
    exact ⟨row, mem_select.2 ⟨hrow, (of_toRecord hrecord).2.1 ▸ hlisted⟩,
      mem_toOption_toRecord.2 hrecord⟩

end Tidy

end SessionRow

/-! ## Records of a memory -/

/-- A sorted map lists its values under their keys. -/
theorem SessionRecord.list_filed {records : KeyMap SessionRecord} (hsorted : records.Sorted)
    (hfiled : ∀ id r, records.get? id = some r → r.sessionId = id) (workflowId : Option String) :
    ((Store.latestFirst workflowId records.values).map (·.sessionId)).Nodup ∧
      ∀ r, r ∈ Store.latestFirst workflowId records.values ↔
        records.get? r.sessionId = some r ∧ workflowId.all (· == r.workflowId) = true := by
  have hkeys : records.values.map (·.sessionId) = records.keys := by
    rw [KeyMap.values, KeyMap.keys, map_map]
    exact map_congr_left fun e he => hfiled e.1 e.2 (hsorted.get?_of_mem he)
  constructor
  · rw [Store.latestFirst, ((mergeSort_perm _ _).map _).nodup_iff]
    refine Nodup.sublist (filter_sublist.map _) ?_
    rw [hkeys]
    exact hsorted.nodup_keys
  · intro r
    rw [Store.latestFirst, mem_mergeSort, mem_filter]
    refine and_congr_left fun _ => ⟨fun hr => ?_, fun hr => ?_⟩
    · obtain ⟨e, he, rfl⟩ := mem_map.1 hr
      have hget := hsorted.get?_of_mem he
      rw [hfiled e.1 e.2 hget, hget]
    · rw [← hsorted.filterMap_keys, mem_filterMap]
      exact ⟨r.sessionId, KeyMap.mem_keys.2 (by simp [KeyMap.contains, hr]), hr⟩

/-! ## Calls -/

namespace Store

/-- A session that was stored by one of the calls and not deleted by a later one. -/
def Live (id : String) (calls : List (Request × Instant)) : Prop :=
  ∃ before r now after, calls = before ++ (.upsert r, now) :: after ∧ r.sessionId = id ∧
    ∀ c ∈ after, c.1 ≠ .delete id

/-- The call gives a session a time of change with a year of four digits. -/
def Request.Dated (now : Instant) : Request → Prop
  | .upsert r => r.updatedAt.Ordinary
  | .rename _ _ => now.Ordinary
  | _ => True

/-- A memory or a table that keeps each session once and under its identifier. -/
inductive Tidy : Store → Prop
  | memory {records : KeyMap SessionRecord} (sorted : records.Sorted)
      (filed : ∀ id r, records.get? id = some r → r.sessionId = id) : Tidy (memory records)
  | table {rows : List SessionRow} (tidy : SessionRow.Tidy rows) : Tidy (table rows)

variable {s : Store} {id : String} {now : Instant} {r : SessionRecord}

@[simp] theorem not_live_nil (id : String) : ¬ Live id [] := by
  rintro ⟨before, r, now, after, hcalls, -⟩
  simp at hcalls

theorem live_cons (id : String) (c : Request × Instant) (calls : List (Request × Instant)) :
    Live id (c :: calls) ↔ Live id calls ∨
      (∀ c ∈ calls, c.1 ≠ .delete id) ∧ ∃ r, c.1 = .upsert r ∧ r.sessionId = id := by
  constructor
  · rintro ⟨before, r, now, after, hcalls, hid, hafter⟩
    cases before with
    | nil =>
      obtain ⟨rfl, rfl⟩ := cons.inj hcalls
      exact .inr ⟨hafter, r, rfl, hid⟩
    | cons first before =>
      obtain ⟨-, hrest⟩ := cons.inj hcalls
      exact .inl ⟨before, r, now, after, hrest, hid, hafter⟩
  · rintro (⟨before, r, now, after, rfl, hid, hafter⟩ | ⟨hafter, r, hstored, hid⟩)
    · exact ⟨c :: before, r, now, after, rfl, hid, hafter⟩
    · exact ⟨[], r, c.2, calls, by rw [← hstored]; rfl, hid, hafter⟩

theorem holding_delete (s : Store) (id id' : String) :
    (s.delete id).2.holding id' = if id' = id then none else s.holding id' := by
  have herase (records : KeyMap SessionRecord) : ((records.erase id).get? id').map Held.record =
      if id' = id then none else (records.get? id').map Held.record := by
    rw [KeyMap.get?_erase]
    split <;> rfl
  cases s with
  | memory records => exact herase records
  | table rows =>
    simp only [delete, holding, find?_filter_ne]
    split <;> rfl
  | refusing refusals reads upserts records => exact herase records

namespace Tidy

theorem upsert (h : s.Tidy) (hr : r.updatedAt.Ordinary) : (s.upsert r).2.Tidy := by
  cases h with
  | @memory records sorted filed =>
    refine .memory (sorted.insert r.sessionId r) fun id r' hget => ?_
    rw [KeyMap.get?_insert] at hget
    split at hget
    · rename_i hid
      rw [← Option.some.inj hget, hid]
    · exact filed id r' hget
  | table tidy => exact .table (tidy.put ⟨r.updatedAt, hr, rfl⟩)

theorem delete (h : s.Tidy) (id : String) : (s.delete id).2.Tidy := by
  cases h with
  | @memory records sorted filed =>
    refine .memory (sorted.erase id) fun id' r hget => ?_
    rw [KeyMap.get?_erase] at hget
    split at hget
    · cases hget
    · exact filed id' r hget
  | table tidy => exact .table (tidy.filter _)

theorem read_snd (h : s.Tidy) (id : String) (now : Instant) : (s.read id now).2 = s := by
  cases h with
  | memory => rfl
  | table =>
    unfold Store.read
    dsimp only
    split <;> rfl

theorem filed (h : s.Tidy) : s.Filed := by
  intro id held hheld
  cases h with
  | memory sorted filed =>
    obtain ⟨r, hr, rfl⟩ := Option.map_eq_some_iff.1 hheld
    exact filed id r hr
  | table tidy =>
    obtain ⟨row, hrow, rfl⟩ := Option.map_eq_some_iff.1 hheld
    have hid := find?_some hrow
    exact eq_of_beq hid

/-- What is read of a session bears its identifier, and is kept for it. -/
theorem of_read (h : s.Tidy) (hread : (s.read id now).1 = .ok (some r)) :
    r.sessionId = id ∧ (s.holding id).isSome = true := by
  have hcall : s.read id now = (.ok (some r), s) := Prod.ext hread (h.read_snd id now)
  refine ⟨(Store.of_read hcall).2 h.filed r rfl, ?_⟩
  rcases read_of_holding hcall with ⟨-, hnone⟩ | ⟨held, -, hheld, -⟩
  · cases hnone
  · rw [hheld]
    rfl

/-- A name is put into the record of a session that is kept, or nothing changes. -/
theorem rename_cases (h : s.Tidy) (id name : String) (now : Instant) :
    (s.rename id name now).2 = s ∨ ∃ r, (s.read id now).1 = .ok (some r) ∧
      (s.rename id name now).2 = (s.upsert (r.renamed name now)).2 := by
  have hcall : s.read id now = ((s.read id now).1, s) := Prod.ext rfl (h.read_snd id now)
  rcases Store.rename_cases hcall name with hsame | ⟨r, q, hread, hput⟩
  · exact .inl hsame
  · exact .inr ⟨r, hread, (congrArg Prod.snd hput).symm⟩

/-- Each call leaves such a memory or table. -/
theorem serve (h : s.Tidy) {q : Request} (hq : q.Dated now) : (s.serve now q).2.Tidy := by
  cases q with
  | upsert r => exact h.upsert hq
  | read id => exact (h.read_snd id now).symm ▸ h
  | delete id => exact h.delete id
  | rename id name =>
    rcases h.rename_cases id name now with hsame | ⟨r, -, hput⟩
    · exact hsame.symm ▸ h
    · exact hput.symm ▸ h.upsert hq
  | list workflowId => exact h

theorem isSome_holding_upsert (h : s.Tidy) (r : SessionRecord) (id : String) :
    ((s.upsert r).2.holding id).isSome = true ↔
      r.sessionId = id ∨ (s.holding id).isSome = true := by
  have hstored : (s.upsert r).1 = .ok r := by cases h <;> rfl
  rcases holding_upsert (Prod.ext hstored rfl : s.upsert r = (.ok r, (s.upsert r).2)) with
    ⟨_, hfault, -⟩ | ⟨-, held, -, hheld⟩
  · cases hfault
  · rw [hheld, apply_ite (Option.isSome · = true), eq_comm (a := r.sessionId)]
    split <;> simp [*]

/-- After a call a session is kept that was stored by it, or was kept before and is not deleted. -/
theorem isSome_holding_serve (h : s.Tidy) (q : Request) (id : String) :
    ((s.serve now q).2.holding id).isSome = true ↔ (∃ r, q = .upsert r ∧ r.sessionId = id) ∨
      q ≠ .delete id ∧ (s.holding id).isSome = true := by
  cases q with
  | upsert r => simpa [Store.serve] using h.isSome_holding_upsert r id
  | read id' => simp [Store.serve, h.read_snd]
  | delete id' =>
    simp only [Store.serve, holding_delete]
    split
    · rename_i hid
      simp [hid]
    · rename_i hid
      simp [Ne.symm hid]
  | rename id' name =>
    rcases h.rename_cases id' name now with hsame | ⟨r, hread, hrenamed⟩
    · simp [Store.serve, hsame]
    · -- the record that is written again is that of a session which is kept already
      obtain ⟨hid, hheld⟩ := h.of_read hread
      have hkept : r.sessionId = id → (s.holding id).isSome = true := by
        rintro rfl
        rw [hid]
        exact hheld
      simpa [Store.serve, hrenamed] using
        (h.isSome_holding_upsert (r.renamed name now) id).trans (or_iff_right_of_imp hkept)
  | list workflowId => simp [Store.serve]

theorem serveAll (h : s.Tidy) {calls : List (Request × Instant)}
    (hdated : ∀ c ∈ calls, c.1.Dated c.2) : (s.serveAll calls).Tidy := by
  induction calls generalizing s with
  | nil => exact h
  | cons c calls ih =>
    rw [forall_mem_cons] at hdated
    exact ih (h.serve hdated.1) hdated.2

/-- After calls the sessions are kept that live, and those that were kept before and are not
deleted. -/
theorem isSome_holding_serveAll (h : s.Tidy) {calls : List (Request × Instant)}
    (hdated : ∀ c ∈ calls, c.1.Dated c.2) (id : String) :
    ((s.serveAll calls).holding id).isSome = true ↔
      Live id calls ∨ (∀ c ∈ calls, c.1 ≠ .delete id) ∧ (s.holding id).isSome = true := by
  induction calls generalizing s with
  | nil => simp [Store.serveAll]
  | cons c calls ih =>
    rw [forall_mem_cons] at hdated ⊢
    rw [Store.serveAll, ih (h.serve hdated.1) hdated.2, h.isSome_holding_serve, live_cons,
      and_or_left, or_assoc, and_assoc, and_left_comm]

/-- If no session fails to be read, those that are kept are read. -/
theorem isSome_holding_iff (h : s.Tidy) (hread : ∀ id, ∃ found, (s.read id now).1 = .ok found)
    (id : String) : (s.holding id).isSome = true ↔
      ∃ r, (s.read id now).1 = .ok (some r) ∧ r.sessionId = id := by
  constructor
  · intro hheld
    obtain ⟨found, hfound⟩ := hread id
    rcases read_of_holding (Prod.ext hfound rfl : s.read id now = (.ok found, (s.read id now).2)) with
      ⟨hnone, -⟩ | ⟨-, r, -, rfl, -⟩
    · simp [hnone] at hheld
    · exact ⟨r, hfound, (h.of_read hfound).1⟩
  · rintro ⟨r, hr, -⟩
    exact (h.of_read hr).2

/-- If no session fails to be read, those of a workflow are listed once each and as they are read,
the latest change first. -/
theorem list (h : s.Tidy) (hread : ∀ id, ∃ found, (s.read id now).1 = .ok found)
    (workflowId : Option String) : ∃ rs, s.list workflowId now = .ok rs ∧
      (rs.map (·.sessionId)).Nodup ∧ SessionRecord.Latest rs ∧
      ∀ r, r ∈ rs ↔ (s.read r.sessionId now).1 = .ok (some r) ∧
        workflowId.all (· == r.workflowId) = true := by
  cases h with
  | @memory records sorted filed =>
    obtain ⟨hids, hmem⟩ := SessionRecord.list_filed sorted filed workflowId
    refine ⟨_, rfl, hids, SessionRecord.latest_latestFirst _ _, fun r => ?_⟩
    rw [hmem, Store.read, Except.ok.injEq]
  | table tidy => exact tidy.list hread workflowId

end Tidy

variable {calls : List (Request × Instant)}

/-- A memory or a table reads what calls brought, if a table can hold that. -/
theorem read_serveAll (hs : s = memory ∅ ∨ s = table []) (hfits : ∀ c ∈ calls, c.1.Fits c.2)
    (id : String) (now : Instant) : ∃ found, ((s.serveAll calls).read id now).1 = .ok found := by
  obtain ⟨records, rs, hmemory, htable, hmirrors⟩ :=
    (Mirrors.empty fun _ => now).serveAll hfits (replaces_const now _ _)
  rcases hs with rfl | rfl
  · rw [hmemory]
    exact ⟨_, rfl⟩
  · rw [map_nil] at htable
    rw [htable, hmirrors.read_table]
    exact ⟨_, rfl⟩

/-- After any calls, a memory or a table that is empty at first lists each session that was stored
and not deleted since once, as it is read, and no other, the latest change first: those of a
workflow, or all of them. A table has the times of changes as texts, whose order is that of the
times. -/
theorem list_complete (hs : s = memory ∅ ∨ s = table []) (hdated : ∀ c ∈ calls, c.1.Dated c.2)
    (hread : ∀ id, ∃ found, ((s.serveAll calls).read id now).1 = .ok found)
    (workflowId : Option String) : ∃ rs, (s.serveAll calls).list workflowId now = .ok rs ∧
      (rs.map (·.sessionId)).Nodup ∧ SessionRecord.Latest rs ∧
      (∀ r, r ∈ rs ↔ Live r.sessionId calls ∧
        ((s.serveAll calls).read r.sessionId now).1 = .ok (some r) ∧
          workflowId.all (· == r.workflowId) = true) ∧
      (∀ id, Live id calls ↔
        ∃ r, ((s.serveAll calls).read id now).1 = .ok (some r) ∧ r.sessionId = id) ∧
      ∀ t u : Instant, t.Ordinary → u.Ordinary → (t.rowText ≤ u.rowText ↔ t.le u = true) := by
  have htidy : s.Tidy := by
    rcases hs with rfl | rfl
    · exact .memory KeyMap.sorted_empty nofun
    · exact .table .nil
  -- nothing is kept at first, so that what is kept in the end has been stored by one of the calls
  have hempty (id : String) : s.holding id = none := by rcases hs with rfl | rfl <;> rfl
  have hlast := htidy.serveAll hdated
  have hlive (id : String) : Live id calls ↔
      ∃ r, ((s.serveAll calls).read id now).1 = .ok (some r) ∧ r.sessionId = id := by
    rw [← hlast.isSome_holding_iff hread, htidy.isSome_holding_serveAll hdated, hempty]
    simp
  obtain ⟨rs, hlist, hids, hlatest, hmem⟩ := hlast.list hread workflowId
  refine ⟨rs, hlist, hids, hlatest, fun r => ?_, hlive, fun t u ht hu => ?_⟩
  · rw [hmem, hlive]
    exact ⟨fun ⟨hr, hlisted⟩ => ⟨⟨r, hr, rfl⟩, hr, hlisted⟩, And.right⟩
  · rw [← Instant.rowText_le ht.valid hu.valid ht.year hu.year, decide_eq_true_eq]

/-- Of a visit that is named and an inquiry that is deleted, the visit is listed. -/
theorem list_complete_visit : ∃ calls : List (Request × Instant),
    calls = [(.upsert (visit 0), ⟨0, 0⟩), (.rename "visit" "first", ⟨1, 0⟩),
      (.upsert (.new "inquiry" "errand" "errand" ⟨1, 0⟩), ⟨1, 0⟩), (.delete "inquiry", ⟨1, 0⟩)] ∧
    ∀ s ∈ [memory ∅, table []], ∃ rs, (s.serveAll calls).list none ⟨1, 0⟩ = .ok rs ∧
      (rs.map (·.sessionId)).Nodup ∧ SessionRecord.Latest rs ∧
      (∃ r ∈ rs, r.sessionId = "visit") ∧ ∀ r ∈ rs, r.sessionId ≠ "inquiry" := by
  obtain ⟨calls, hcalls⟩ : ∃ calls : List (Request × Instant),
      calls = [(.upsert (visit 0), ⟨0, 0⟩), (.rename "visit" "first", ⟨1, 0⟩),
        (.upsert (.new "inquiry" "errand" "errand" ⟨1, 0⟩), ⟨1, 0⟩), (.delete "inquiry", ⟨1, 0⟩)] :=
    ⟨_, rfl⟩
  have hdate : (⟨0, 0⟩ : Instant).Ordinary ∧ (⟨1, 0⟩ : Instant).Ordinary :=
    ⟨visit_ordinary (.inl rfl), visit_ordinary (.inr rfl)⟩
  have hfits : ∀ c ∈ calls, c.1.Fits c.2 := by
    simp [hcalls, Request.Fits, visit, SessionRecord.storable_new, hdate]
  have hdated : ∀ c ∈ calls, c.1.Dated c.2 := by
    simp [hcalls, Request.Dated, visit, SessionRecord.new, hdate]
  have hvisit : Live "visit" calls := by simp [hcalls, live_cons, visit, SessionRecord.new]
  have hinquiry : ¬ Live "inquiry" calls := by simp [hcalls, live_cons]
  refine ⟨calls, hcalls, fun s hs => ?_⟩
  have hempty : s = memory ∅ ∨ s = table [] := by simpa using hs
  obtain ⟨rs, hlist, hids, hlatest, hmem, hlive, -⟩ := list_complete hempty hdated
    (fun id => read_serveAll hempty hfits id ⟨1, 0⟩) none
  refine ⟨rs, hlist, hids, hlatest, ?_, fun r hr hid => ?_⟩
  · obtain ⟨r, hread, hid⟩ := (hlive "visit").1 hvisit
    rw [← hid] at hvisit hread
    exact ⟨r, (hmem r).2 ⟨hvisit, hread, rfl⟩, hid⟩
  · exact hinquiry (hid ▸ ((hmem r).1 hr).1)

end Store

end WorkflowEngine
