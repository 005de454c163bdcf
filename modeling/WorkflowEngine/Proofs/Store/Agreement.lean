import Mathlib.Data.List.Nodup
import WorkflowEngine.Proofs.Store.Records
import WorkflowEngine.Proofs.Store.Keeping
import WorkflowEngine.Proofs.Time.Order

/-!
# Memory and tables agree

Calls served by a memory and by a table. The table keeps the time at which the record of a session
was first created, and hands back only what can be read from its texts; but for that both give the
same answers.
-/

namespace WorkflowEngine

open List

namespace Store

/-- A call to a store. -/
inductive Request where
  | upsert (record : SessionRecord)
  | read (sessionId : String)
  | delete (sessionId : String)
  | rename (sessionId name : String)
  | list (workflowId : Option String)

/-- What a store says to a call. -/
inductive Answer where
  | stored (record : Except Fault SessionRecord)
  | found (record : Except Fault (Option SessionRecord))
  | told (there : Except Fault Bool)
  | listed (records : Except Fault (List SessionRecord))

def serve (s : Store) (now : Instant) : Request → Answer × Store
  | .upsert r => (.stored (s.upsert r).1, (s.upsert r).2)
  | .read id => (.found (s.read id now).1, (s.read id now).2)
  | .delete id => (.told (.ok (s.delete id).1), (s.delete id).2)
  | .rename id name => (.told (s.rename id name now).1, (s.rename id name now).2)
  | .list workflowId => (.listed (s.list workflowId now), s)

/-- The store after calls that come at given times. -/
def serveAll (s : Store) : List (Request × Instant) → Store
  | [] => s
  | c :: calls => (s.serve c.2 c.1).2.serveAll calls

def answers (s : Store) : List (Request × Instant) → List Answer
  | [] => []
  | c :: calls => (s.serve c.2 c.1).1 :: (s.serve c.2 c.1).2.answers calls

/-- A table can hold what the call brings. -/
def Request.Fits (now : Instant) : Request → Prop
  | .upsert r => r.Storable
  | .rename _ _ => now.Ordinary
  | _ => True

/-- Each record that comes in the place of another one has the same time of creation, as far as `g`
tells times apart. -/
def Replaces (g : Instant → Instant) (s : Store) : List (Request × Instant) → Prop
  | [] => True
  | c :: calls =>
    (∀ r old, c.1 = .upsert r → (s.read r.sessionId c.2).1 = .ok (some old) →
      g old.createdAt = g r.createdAt) ∧ (s.serve c.2 c.1).2.Replaces g calls

end Store

namespace SessionRecord

/-- A record with its time of creation as `g` has it. -/
def dated (g : Instant → Instant) (r : SessionRecord) : SessionRecord :=
  { r with createdAt := g r.createdAt }

/-- A record whose session got a name. -/
def renamed (name : String) (now : Instant) (r : SessionRecord) : SessionRecord :=
  { r with sessionName := some name, updatedAt := now }

/-- The latest change first. -/
def Latest (rs : List SessionRecord) : Prop := rs.Pairwise fun a b => b.updatedAt.le a.updatedAt = true

end SessionRecord

/-- Two answers that are the same, but for times of creation that `g` does not tell apart and for the
order of records that were changed at one time. -/
inductive Store.Answer.Agrees (g : Instant → Instant) : Answer → Answer → Prop
  | stored (r : SessionRecord) : Agrees g (.stored (.ok r)) (.stored (.ok r))
  | found {r r' : Option SessionRecord} (same : r.map (·.dated g) = r'.map (·.dated g)) :
      Agrees g (.found (.ok r)) (.found (.ok r'))
  | told (there : Bool) : Agrees g (.told (.ok there)) (.told (.ok there))
  | listed {rs rs' : List SessionRecord}
      (same : (rs.map (·.dated g)).Perm (rs'.map (·.dated g)))
      (latest : SessionRecord.Latest rs) (latest' : SessionRecord.Latest rs') :
      Agrees g (.listed (.ok rs)) (.listed (.ok rs'))

/-! ## Records in a table -/

/-- With distinct keys, an item of a list is the one that is found by its key. -/
theorem find?_of_mem_of_nodup_map {α : Type} {key : α → String} {l : List α} {a : α}
    (hl : (l.map key).Nodup) (h : a ∈ l) : l.find? (key · == key a) = some a := by
  induction l with
  | nil => simp at h
  | cons first rest ih =>
    obtain ⟨hnew, hrest⟩ := nodup_cons.1 hl
    rcases mem_cons.1 h with rfl | hmem
    · simp
    · have hne : key first ≠ key a := fun heq => hnew (mem_map.2 ⟨a, hmem, heq.symm⟩)
      simpa [hne] using ih hrest hmem

theorem find?_filter_ne {α : Type} {key : α → String} (l : List α) (id id' : String) :
    (l.filter (key · != id)).find? (key · == id') =
      if id' = id then none else l.find? (key · == id') := by
  rw [find?_filter]
  split
  · simp_all
  · rename_i hne
    refine congrFun (congrArg find? (funext fun a => ?_)) l
    by_cases h : key a = id'
    · simp [h, hne]
    · simp [h]

namespace SessionRecord

/-- Puts a record in the place of that of its session, whose time of creation stays, or at the
end. -/
def put (r : SessionRecord) : List SessionRecord → List SessionRecord
  | [] => [r]
  | old :: rest =>
    if old.sessionId = r.sessionId then { r with createdAt := old.createdAt } :: rest
    else old :: put r rest

def among (id : String) (rs : List SessionRecord) : Option SessionRecord :=
  rs.find? (·.sessionId == id)

variable {r : SessionRecord} {rs : List SessionRecord} {id : String}

theorem put_rows (r : SessionRecord) (rs : List SessionRecord) :
    (SessionRow.ofRecord r).put (rs.map SessionRow.ofRecord) = (put r rs).map SessionRow.ofRecord := by
  induction rs with
  | nil => rfl
  | cons old rest ih =>
    have hid : (SessionRow.ofRecord old).sessionId = (SessionRow.ofRecord r).sessionId ↔
        old.sessionId = r.sessionId := Iff.rfl
    simp only [map_cons, SessionRow.put, put, ih, hid, apply_ite (List.map SessionRow.ofRecord)]
    rfl

theorem among_rows (id : String) (rs : List SessionRecord) :
    (rs.map SessionRow.ofRecord).find? (·.sessionId == id) = (among id rs).map SessionRow.ofRecord := by
  rw [find?_map]
  rfl

theorem sessionId_of_among (h : among id rs = some r) : r.sessionId = id := by
  simpa using find?_some h

theorem mem_of_among (h : among id rs = some r) : r ∈ rs := mem_of_find?_eq_some h

/-- A record put into a table keeps the time of creation of the one it replaces. -/
theorem among_put (r : SessionRecord) (rs : List SessionRecord) : among r.sessionId (put r rs) =
    some { r with createdAt := ((among r.sessionId rs).map (·.createdAt)).getD r.createdAt } := by
  induction rs with
  | nil => simp [put, among]
  | cons old rest ih =>
    by_cases h : old.sessionId = r.sessionId
    · simp [put, among, h]
    · simpa [put, among, h] using ih

theorem among_put_ne (rs : List SessionRecord) (h : id ≠ r.sessionId) :
    among id (put r rs) = among id rs := by
  induction rs with
  | nil => simp [put, among, h.symm]
  | cons old rest ih =>
    by_cases hold : old.sessionId = r.sessionId
    · simp [put, among, hold, h.symm]
    · simp only [among] at ih
      simp only [put, if_neg hold, among, find?_cons, ih]

theorem mem_put {x : SessionRecord} (h : x ∈ put r rs) :
    x ∈ rs ∨ ∃ t ∈ r.createdAt :: rs.map (·.createdAt), x = { r with createdAt := t } := by
  induction rs with
  | nil => exact .inr ⟨r.createdAt, by simp, by simpa [put] using h⟩
  | cons old rest ih =>
    by_cases hold : old.sessionId = r.sessionId
    · simp only [put, if_pos hold, mem_cons] at h
      rcases h with rfl | hrest
      · exact .inr ⟨old.createdAt, by simp, rfl⟩
      · exact .inl (by simp [hrest])
    · simp only [put, if_neg hold, mem_cons] at h
      rcases h with rfl | hrest
      · exact .inl (by simp)
      · obtain hmem | ⟨t, ht, heq⟩ := ih hrest
        · exact .inl (by simp [hmem])
        · refine .inr ⟨t, ?_, heq⟩
          simp only [mem_cons, map_cons] at ht ⊢
          exact ht.imp_right .inr

theorem nodup_put (r : SessionRecord) (h : (rs.map (·.sessionId)).Nodup) :
    ((put r rs).map (·.sessionId)).Nodup := by
  have hids (rs : List SessionRecord) :
      (rs.map SessionRow.ofRecord).map (·.sessionId) = rs.map (·.sessionId) := map_map
  rw [← hids, ← put_rows]
  exact SessionRow.nodup_put _ (hids rs ▸ h)

theorem Storable.put (hr : r.Storable) (hrs : ∀ r ∈ rs, r.Storable) : ∀ x ∈ r.put rs, x.Storable := by
  intro x hx
  obtain hmem | ⟨t, ht, rfl⟩ := mem_put hx
  · exact hrs x hmem
  · have hdate : t.Ordinary := by
      rw [mem_cons, mem_map] at ht
      rcases ht with rfl | ⟨old, hold, rfl⟩
      · exact hr.createdAt
      · exact (hrs old hold).createdAt
    exact ⟨hr.state, hr.runs, hdate, hr.updatedAt⟩

theorem among_filter_ne (rs : List SessionRecord) (id id' : String) :
    among id' (rs.filter (·.sessionId != id)) = if id' = id then none else among id' rs :=
  find?_filter_ne rs id id'

/-- With one record for each session, a record is the one among them with its identifier. -/
theorem among_of_mem (hrs : (rs.map (·.sessionId)).Nodup) (h : r ∈ rs) :
    among r.sessionId rs = some r :=
  find?_of_mem_of_nodup_map hrs h

theorem latest_latestFirst (workflowId : Option String) (rs : List SessionRecord) :
    Latest (Store.latestFirst workflowId rs) := by
  refine pairwise_mergeSort (fun a b c hab hbc => ?_) (fun a b => ?_) _
  · simp only [Instant.le, Bool.or_eq_true, Bool.and_eq_true, decide_eq_true_eq, beq_iff_eq] at hab hbc ⊢
    omega
  · simp only [Instant.le, Bool.or_eq_true, Bool.and_eq_true, decide_eq_true_eq, beq_iff_eq]
    omega

/-- Only the workflows of records decide which of them are listed. -/
theorem perm_latestFirst {g : Instant → Instant} {rs rs' : List SessionRecord}
    (h : (rs.map (·.dated g)).Perm (rs'.map (·.dated g))) (workflowId : Option String) :
    ((Store.latestFirst workflowId rs).map (·.dated g)).Perm
      ((Store.latestFirst workflowId rs').map (·.dated g)) := by
  have hfilter (rs : List SessionRecord) :
      (rs.filter fun r => workflowId.all (· == r.workflowId)).map (·.dated g) =
        (rs.map (·.dated g)).filter fun r => workflowId.all (· == r.workflowId) := by
    rw [filter_map]
    rfl
  have hsorted (rs : List SessionRecord) : ((Store.latestFirst workflowId rs).map (·.dated g)).Perm
      ((rs.map (·.dated g)).filter fun r => workflowId.all (· == r.workflowId)) := by
    rw [← hfilter]
    exact (mergeSort_perm _ _).map _
  exact (hsorted rs).trans ((h.filter _).trans (hsorted rs').symm)

/-- A table lists the records it holds as a memory does. -/
theorem select_rows (hrs : ∀ r ∈ rs, r.Storable) (workflowId : Option String) (now : Instant) :
    (SessionRow.select workflowId (rs.map SessionRow.ofRecord)).mapM (·.toRecord now) =
      .ok (Store.latestFirst workflowId rs) := by
  have hrows : SessionRow.select workflowId (rs.map SessionRow.ofRecord) =
      (Store.latestFirst workflowId rs).map SessionRow.ofRecord := by
    rw [SessionRow.select, filter_map, Store.latestFirst, map_mergeSort]
    · rfl
    · intro a ha b hb
      have hdates := (hrs a (mem_filter.1 ha).1).updatedAt
      have hdates' := (hrs b (mem_filter.1 hb).1).updatedAt
      exact (Instant.rowText_le hdates'.valid hdates.valid hdates'.year hdates.year).symm
  have hread : ∀ r ∈ Store.latestFirst workflowId rs,
      (SessionRow.ofRecord r).toRecord now = .ok r := fun r hr =>
    SessionRow.toRecord_ofRecord (hrs r (mem_filter.1 (mem_mergeSort.1 hr)).1) now
  rw [hrows, SessionRow.mapM_toRecord fun row hrow => ?_, filterMap_map, Except.ok.injEq]
  · have hsome : (Store.latestFirst workflowId rs).filterMap
        (fun r => ((SessionRow.ofRecord r).toRecord now).toOption) =
          (Store.latestFirst workflowId rs).filterMap some :=
      filterMap_congr fun r hr => congrArg Except.toOption (hread r hr)
    exact hsome.trans filterMap_some
  · obtain ⟨r, hr, rfl⟩ := mem_map.1 hrow
    exact ⟨r, hread r hr⟩

end SessionRecord

/-! ## A memory beside a table -/

namespace KeyMap

variable {α : Type}

/-- An entry of a map is found under its key. -/
theorem Sorted.get?_of_mem {m : KeyMap α} (h : m.Sorted) {e : String × α} (he : e ∈ m.entries) :
    m.get? e.1 = some e.2 := by
  obtain ⟨entries⟩ := m
  simp only [Sorted, get?] at h he ⊢
  induction entries with
  | nil => simp at he
  | cons first rest ih =>
    obtain ⟨key, value⟩ := first
    obtain ⟨hfirst, hrest⟩ := pairwise_cons.1 h
    rcases mem_cons.1 he with rfl | hmem
    · simp
    · have hne : e.1 ≠ key := fun heq => String.lt_irrefl _ (heq ▸ hfirst e hmem)
      rw [List.lookup_cons, beq_eq_false_iff_ne.2 hne]
      exact ih hrest hmem

/-- The values of a map are those at its keys, in their order. -/
theorem Sorted.filterMap_keys {m : KeyMap α} (h : m.Sorted) : m.keys.filterMap m.get? = m.values := by
  rw [keys, values, filterMap_map, ← filterMap_eq_map]
  exact filterMap_congr fun e he => h.get?_of_mem he

end KeyMap

open SessionRecord (among)

/-- A memory and the records of a table that stand for the same sessions. -/
structure Mirrors (g : Instant → Instant) (records : KeyMap SessionRecord)
    (rs : List SessionRecord) : Prop where
  sorted : records.Sorted
  distinct : (rs.map (·.sessionId)).Nodup
  storable : ∀ r ∈ rs, r.Storable
  same : ∀ id, (records.get? id).map (·.dated g) = (among id rs).map (·.dated g)

namespace Mirrors

variable {g : Instant → Instant} {records : KeyMap SessionRecord} {rs : List SessionRecord}
  {r : SessionRecord} {id : String} {now : Instant}

theorem empty (g : Instant → Instant) : Mirrors g ∅ [] :=
  ⟨KeyMap.sorted_empty, nodup_nil, by simp, fun _ => rfl⟩

/-- Both hold the same records, but for their order. -/
theorem perm (h : Mirrors g records rs) :
    (records.values.map (·.dated g)).Perm (rs.map (·.dated g)) := by
  have hvalues : records.values.map (·.dated g) =
      (records.keys.filterMap fun id => among id rs).map (·.dated g) := by
    rw [← h.sorted.filterMap_keys, map_filterMap, map_filterMap]
    exact filterMap_congr fun id _ => h.same id
  have hdistinct : (records.keys.filterMap fun id => among id rs).Nodup := by
    refine h.sorted.nodup_keys.filterMap fun id id' r hr hr' => ?_
    rw [← SessionRecord.sessionId_of_among hr, ← SessionRecord.sessionId_of_among hr']
  rw [hvalues]
  refine Perm.map _ ((perm_ext_iff_of_nodup hdistinct (Nodup.of_map _ h.distinct)).2 fun r => ?_)
  rw [mem_filterMap]
  refine ⟨fun ⟨_, _, hr⟩ => SessionRecord.mem_of_among hr, fun hr => ?_⟩
  have hamong := SessionRecord.among_of_mem h.distinct hr
  have hsame := h.same r.sessionId
  rw [hamong, Option.map_some, Option.map_eq_some_iff] at hsame
  obtain ⟨kept, hkept, -⟩ := hsame
  exact ⟨r.sessionId, KeyMap.mem_keys.2 (by simp [KeyMap.contains, hkept]), hamong⟩

/-- What a table reads is what the records it stands for have. -/
theorem read_table (h : Mirrors g records rs) (id : String) (now : Instant) :
    (Store.table (rs.map SessionRow.ofRecord)).read id now =
      (.ok (among id rs), .table (rs.map SessionRow.ofRecord)) := by
  rw [Store.read, SessionRecord.among_rows]
  cases hr : among id rs with
  | none => rfl
  | some r =>
    simp only [Option.map_some,
      SessionRow.toRecord_ofRecord (h.storable r (SessionRecord.mem_of_among hr)) now]
    rfl

theorem rename_table (h : Mirrors g records rs) (id name : String) (now : Instant) :
    (Store.table (rs.map SessionRow.ofRecord)).rename id name now =
      match among id rs with
      | none => (.ok false, .table (rs.map SessionRow.ofRecord))
      | some r => (.ok true, .table (((r.renamed name now).put rs).map SessionRow.ofRecord)) := by
  rw [Store.rename, h.read_table]
  cases among id rs with
  | none => rfl
  | some r =>
    exact congrArg (fun rows => (Except.ok true, Store.table rows))
      (SessionRecord.put_rows (r.renamed name now) rs)

/-- A record that goes to both, into the table with a time of creation that `g` does not tell
apart. -/
theorem upsert {r' : SessionRecord} (h : Mirrors g records rs) (hr : r'.Storable)
    (hsame : r.dated g = r'.dated g)
    (hold : ∀ old, records.get? r.sessionId = some old → g old.createdAt = g r.createdAt) :
    Mirrors g (records.insert r.sessionId r) (r'.put rs) where
  sorted := h.sorted.insert r.sessionId r
  distinct := SessionRecord.nodup_put r' h.distinct
  storable := hr.put h.storable
  same id := by
    have hid : r.sessionId = r'.sessionId := congrArg (·.sessionId) hsame
    rw [KeyMap.get?_insert]
    split
    · rename_i heq
      have hkept := h.same r'.sessionId
      rw [heq, hid, SessionRecord.among_put]
      cases hamong : among r'.sessionId rs with
      | none => simpa using hsame
      | some old =>
        rw [hamong, Option.map_some, Option.map_eq_some_iff] at hkept
        obtain ⟨kept, hget, hdated⟩ := hkept
        have hdate : g old.createdAt = g r'.createdAt := calc
          g old.createdAt = g kept.createdAt := congrArg (·.createdAt) hdated.symm
          _ = g r.createdAt := hold kept (hid ▸ hget)
          _ = g r'.createdAt := congrArg (·.createdAt) hsame
        simpa [SessionRecord.dated, hdate] using hsame
    · rename_i hne
      rw [SessionRecord.among_put_ne rs (hid ▸ hne)]
      exact h.same id

theorem erase (h : Mirrors g records rs) (id : String) :
    Mirrors g (records.erase id) (rs.filter (·.sessionId != id)) where
  sorted := h.sorted.erase id
  distinct := h.distinct.sublist (filter_sublist.map _)
  storable r hr := h.storable r (mem_filter.1 hr).1
  same id' := by
    rw [KeyMap.get?_erase, SessionRecord.among_filter_ne]
    split
    · rfl
    · exact h.same id'

/-- A call leaves a memory and a table that mirror each other so, and they say the same. -/
theorem serve (h : Mirrors g records rs) {q : Store.Request} (hfits : q.Fits now)
    (hold : ∀ r old, q = .upsert r → ((Store.memory records).read r.sessionId now).1 = .ok (some old) →
      g old.createdAt = g r.createdAt) :
    ∃ records' rs', ((Store.memory records).serve now q).2 = .memory records' ∧
      ((Store.table (rs.map SessionRow.ofRecord)).serve now q).2 =
        .table (rs'.map SessionRow.ofRecord) ∧
      Mirrors g records' rs' ∧ Store.Answer.Agrees g ((Store.memory records).serve now q).1
        ((Store.table (rs.map SessionRow.ofRecord)).serve now q).1 := by
  cases q with
  | upsert r =>
    refine ⟨records.insert r.sessionId r, r.put rs, rfl, ?_, ?_, .stored r⟩
    · exact congrArg Store.table (SessionRecord.put_rows r rs)
    · exact h.upsert hfits rfl fun old hget => hold r old rfl (by rw [Store.read, hget])
  | read id =>
    refine ⟨records, rs, rfl, ?_, h, ?_⟩
    · rw [Store.serve, h.read_table]
    · simp only [Store.serve, h.read_table]
      exact .found (h.same id)
  | delete id =>
    refine ⟨records.erase id, rs.filter (·.sessionId != id), rfl, ?_, h.erase id, ?_⟩
    · simp only [Store.serve, Store.delete, filter_map]
      rfl
    · have hthere : (rs.map SessionRow.ofRecord).any (·.sessionId == id) = records.contains id := by
        have hsame := congrArg Option.isSome (h.same id)
        simp only [Option.isSome_map, among] at hsame
        rw [KeyMap.contains, hsame, any_map, Bool.eq_iff_iff, any_eq_true, find?_isSome]
        rfl
      simp only [Store.serve, Store.delete, hthere]
      exact .told _
  | rename id name =>
    have hsame := h.same id
    cases hamong : among id rs with
    | none =>
      have hnone : records.get? id = none := by simpa [hamong] using hsame
      have hmemory : (Store.memory records).rename id name now = (.ok false, .memory records) := by
        rw [Store.rename, Store.read, hnone]
      refine ⟨records, rs, ?_, ?_, h, ?_⟩
      · rw [Store.serve, hmemory]
      · simp only [Store.serve, h.rename_table, hamong]
      · simp only [Store.serve, h.rename_table, hamong, hmemory]
        exact .told false
    | some r =>
      rw [hamong, Option.map_some, Option.map_eq_some_iff] at hsame
      obtain ⟨kept, hget, hdated⟩ := hsame
      have hid : kept.sessionId = id :=
        (congrArg (·.sessionId) hdated).trans (SessionRecord.sessionId_of_among hamong)
      have hr : (r.renamed name now).Storable := by
        obtain ⟨hstate, hruns, hcreated, -⟩ := h.storable r (SessionRecord.mem_of_among hamong)
        exact ⟨hstate, hruns, hcreated, hfits⟩
      have hnamed : (kept.renamed name now).dated g = (r.renamed name now).dated g :=
        congrArg (·.renamed name now) hdated
      have hkept : ∀ old, records.get? kept.sessionId = some old → g old.createdAt = g kept.createdAt := by
        intro old hold
        rw [hid, hget, Option.some.injEq] at hold
        rw [hold]
      have hmemory : (Store.memory records).rename id name now =
          (.ok true, .memory (records.insert kept.sessionId (kept.renamed name now))) := by
        rw [Store.rename, Store.read, hget]
        rfl
      refine ⟨records.insert kept.sessionId (kept.renamed name now), (r.renamed name now).put rs,
        ?_, ?_, h.upsert hr hnamed hkept, ?_⟩
      · rw [Store.serve, hmemory]
      · simp only [Store.serve, h.rename_table, hamong]
      · simp only [Store.serve, h.rename_table, hamong, hmemory]
        exact .told true
  | list workflowId =>
    refine ⟨records, rs, rfl, rfl, h, ?_⟩
    simp only [Store.serve, Store.list, SessionRecord.select_rows h.storable]
    exact .listed (SessionRecord.perm_latestFirst h.perm workflowId)
      (SessionRecord.latest_latestFirst _ _) (SessionRecord.latest_latestFirst _ _)

/-- Calls leave a memory and a table that mirror each other so. -/
theorem serveAll (h : Mirrors g records rs) {calls : List (Store.Request × Instant)}
    (hfits : ∀ c ∈ calls, c.1.Fits c.2) (hreplaces : (Store.memory records).Replaces g calls) :
    ∃ records' rs', (Store.memory records).serveAll calls = .memory records' ∧
      (Store.table (rs.map SessionRow.ofRecord)).serveAll calls =
        .table (rs'.map SessionRow.ofRecord) ∧ Mirrors g records' rs' := by
  induction calls generalizing records rs with
  | nil => exact ⟨records, rs, rfl, rfl, h⟩
  | cons c calls ih =>
    rw [forall_mem_cons] at hfits
    obtain ⟨hold, hrest⟩ := hreplaces
    obtain ⟨records', rs', hmemory, htable, hnext, -⟩ := h.serve hfits.1 hold
    rw [hmemory] at hrest
    rw [Store.serveAll, Store.serveAll, hmemory, htable]
    exact ih hnext hfits.2 hrest

/-- A memory and a table that mirror each other say the same to every sequence of calls. -/
theorem answers (h : Mirrors g records rs) {calls : List (Store.Request × Instant)}
    (hfits : ∀ c ∈ calls, c.1.Fits c.2) (hreplaces : (Store.memory records).Replaces g calls) :
    Forall₂ (Store.Answer.Agrees g) ((Store.memory records).answers calls)
      ((Store.table (rs.map SessionRow.ofRecord)).answers calls) := by
  induction calls generalizing records rs with
  | nil => exact .nil
  | cons c calls ih =>
    rw [forall_mem_cons] at hfits
    obtain ⟨hold, hrest⟩ := hreplaces
    obtain ⟨records', rs', hmemory, htable, hnext, hagrees⟩ := h.serve hfits.1 hold
    rw [hmemory] at hrest
    rw [Store.answers, Store.answers]
    refine .cons hagrees ?_
    rw [hmemory, htable]
    exact ih hnext hfits.2 hrest

end Mirrors

namespace Store

variable {g : Instant → Instant} {s : Store} {calls calls' : List (Request × Instant)}

theorem Replaces.append (h : s.Replaces g (calls ++ calls')) :
    s.Replaces g calls ∧ (s.serveAll calls).Replaces g calls' := by
  induction calls generalizing s with
  | nil => exact ⟨trivial, h⟩
  | cons c calls ih => exact ⟨⟨h.1, (ih h.2).1⟩, (ih h.2).2⟩

/-- No two times are told apart. -/
theorem replaces_const (t : Instant) (s : Store) (calls : List (Request × Instant)) :
    s.Replaces (fun _ => t) calls := by
  induction calls generalizing s with
  | nil => trivial
  | cons c calls ih => exact ⟨fun _ _ _ _ => rfl, ih _⟩

/-- A memory and a table that are empty at first answer every sequence of calls alike, if a table
can hold what the calls bring: the same records in the same order, but for the times at which they
were created and for the order of records that were changed at one time. When each record has the
time of creation of the one it comes in the place of, that time is the same as well, and a record is
read right after it came as it is. -/
theorem answers_agree (hfits : ∀ c ∈ calls, c.1.Fits c.2) (t : Instant) :
    Forall₂ (Answer.Agrees fun _ => t) ((memory ∅).answers calls) ((table []).answers calls) ∧
      ((memory ∅).Replaces id calls →
        Forall₂ (Answer.Agrees id) ((memory ∅).answers calls) ((table []).answers calls) ∧
        ∀ s ∈ [memory ∅, table []], ∀ before r now after later,
          calls = before ++ (.upsert r, now) :: after →
            ((s.serveAll before).upsert r).1 = .ok r ∧
              (((s.serveAll before).upsert r).2.read r.sessionId later).1 = .ok (some r)) := by
  refine ⟨(Mirrors.empty _).answers hfits (replaces_const t _ _), fun hreplaces =>
    ⟨(Mirrors.empty _).answers hfits hreplaces, ?_⟩⟩
  intro s hs before r now after later hcalls
  subst hcalls
  obtain ⟨hbefore, hfrom⟩ := forall_mem_append.1 hfits
  obtain ⟨hpast, hnow, -⟩ := hreplaces.append
  obtain ⟨records, rs, hmemory, htable, hmirrors⟩ := (Mirrors.empty id).serveAll hbefore hpast
  have hstorable : r.Storable := (forall_mem_cons.1 hfrom).1
  have hold : ∀ old, records.get? r.sessionId = some old → old.createdAt = r.createdAt :=
    fun old hget => hnow r old rfl (by rw [hmemory, read, hget])
  have hnext := hmirrors.upsert hstorable rfl hold
  have hkept : among r.sessionId (r.put rs) = some r := by
    simpa [KeyMap.get?_insert, SessionRecord.dated] using (hnext.same r.sessionId).symm
  simp only [mem_cons, not_mem_nil, or_false] at hs
  rcases hs with rfl | rfl
  · rw [hmemory]
    exact ⟨rfl, by simp [upsert, read, KeyMap.get?_insert]⟩
  · rw [map_nil] at htable
    rw [htable, upsert, SessionRecord.put_rows, hnext.read_table, hkept]
    exact ⟨rfl, rfl⟩

/-- The record of a visit that began at a second. -/
def visit (second : Int) : SessionRecord := .new "visit" "errand" "errand" ⟨second, 0⟩

theorem visit_ordinary {second : Int} (h : second = 0 ∨ second = 1) :
    (⟨second, 0⟩ : Instant).Ordinary := by
  rcases h with rfl | rfl
  · exact ⟨⟨by decide, by decide⟩, by decide⟩
  · exact ⟨⟨by decide, by decide⟩, by decide⟩

/-- A visit that is stored, named, stored again and listed. -/
theorem answers_agree_visit : ∃ calls : List (Request × Instant),
    calls = [(.upsert (visit 0), ⟨0, 0⟩), (.rename "visit" "first", ⟨1, 0⟩),
      (.upsert (visit 0), ⟨1, 0⟩), (.list none, ⟨1, 0⟩)] ∧
    Forall₂ (Answer.Agrees id) ((memory ∅).answers calls) ((table []).answers calls) := by
  have hvisit : (visit 0).Storable :=
    SessionRecord.storable_new "visit" "errand" "errand" (visit_ordinary (.inl rfl))
  refine ⟨_, rfl, ((answers_agree ?_ ⟨0, 0⟩).2 ?_).1⟩
  · simp [Request.Fits, hvisit, visit_ordinary]
  · refine ⟨fun r old hr hread => ?_, nofun, fun r old hr hread => ?_, nofun, trivial⟩
    · cases hr
      have hnone : Except.ok none = Except.ok (ε := Fault) (some old) := hread
      simp at hnone
    · cases hr
      have hnamed : Except.ok (some ((visit 0).renamed "first" ⟨1, 0⟩)) =
          Except.ok (ε := Fault) (some old) := hread
      simp only [Except.ok.injEq, Option.some.injEq] at hnamed
      rw [← hnamed]
      rfl

/-- A table keeps the time at which a session was first stored, and says of a record with another
time that it stored that. -/
theorem creation_kept : ∃ calls : List (Request × Instant),
    calls = [(.upsert (visit 0), ⟨1, 0⟩), (.upsert (visit 1), ⟨1, 0⟩), (.read "visit", ⟨1, 0⟩)] ∧
    (memory ∅).answers calls =
      [.stored (.ok (visit 0)), .stored (.ok (visit 1)), .found (.ok (some (visit 1)))] ∧
    (table []).answers calls = [.stored (.ok (visit 0)), .stored (.ok (visit 1)),
      .found (.ok (some { visit 1 with createdAt := ⟨0, 0⟩ }))] ∧
    ¬ Forall₂ (Answer.Agrees id) ((memory ∅).answers calls) ((table []).answers calls) := by
  obtain ⟨kept, hkept⟩ : ∃ kept : SessionRecord, kept = { visit 1 with createdAt := ⟨0, 0⟩ } :=
    ⟨_, rfl⟩
  have hstorable : kept.Storable := by
    have hvisit : (visit 1).Storable := SessionRecord.storable_new _ _ _ (visit_ordinary (.inr rfl))
    rw [hkept]
    exact ⟨hvisit.state, hvisit.runs, visit_ordinary (.inl rfl), hvisit.updatedAt⟩
  have htable : (table []).answers
      [(.upsert (visit 0), ⟨1, 0⟩), (.upsert (visit 1), ⟨1, 0⟩), (.read "visit", ⟨1, 0⟩)] =
        [.stored (.ok (visit 0)), .stored (.ok (visit 1)),
          .found (((SessionRow.ofRecord kept).toRecord ⟨1, 0⟩).map some)] := by
    rw [hkept]
    rfl
  rw [SessionRow.toRecord_ofRecord hstorable, hkept] at htable
  have hmemory : (memory ∅).answers
      [(.upsert (visit 0), ⟨1, 0⟩), (.upsert (visit 1), ⟨1, 0⟩), (.read "visit", ⟨1, 0⟩)] =
        [.stored (.ok (visit 0)), .stored (.ok (visit 1)), .found (.ok (some (visit 1)))] := rfl
  refine ⟨_, rfl, hmemory, htable, ?_⟩
  rw [hmemory, htable]
  intro hagree
  cases hagree with
  | cons _ hrest =>
    cases hrest with
    | cons _ hlast =>
      cases hlast with
      | cons hfound _ =>
        cases hfound with
        | found same => simp [visit, SessionRecord.dated, SessionRecord.new] at same

end Store

end WorkflowEngine
