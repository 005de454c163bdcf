import WorkflowEngine.Proofs.Json.Numbers
import WorkflowEngine.Wire.Field

/-!
# Readers and writers

What it takes of a reader to undo a writer, for plain values, for lists and tables, and for the
fields of a record.
-/

namespace WorkflowEngine.Wire

open Json (Record InRange)

/-- `read` gives back whatever `write` made of a value with `P`, and all it ever gives, reading any
document, has `P`. -/
structure Undoes (read : Json → Option α) (write : α → Json) (P : α → Prop) : Prop where
  reads : ∀ a, P a → read (write a) = some a
  gives : ∀ {j a}, j.InRange → read j = some a → P a

section Undoes

variable {read : Json → Option α} {write : α → Json} {P : α → Prop} {Q : Option α → Prop}

/-- What was read, written and read again is what was read first. -/
theorem Undoes.again (h : Undoes read write P) {j : Json} {a : α} (hj : j.InRange)
    (hread : read j = some a) : read (write a) = some a :=
  h.reads a (h.gives hj hread)

/-! ## Plain values -/

@[simp] theorem text?_str (s : String) : (Json.str s).text? = some s := rfl

@[simp] theorem bool?_bool (b : Bool) : (Json.bool b).bool? = some b := rfl

theorem undoes_text : Undoes Json.text? .str fun _ => True := ⟨fun _ _ => rfl, fun _ _ => trivial⟩

theorem undoes_natBelow (limit : Nat) :
    Undoes (Json.natBelow? limit) natJson (· < limit) where
  reads n h := if_pos h
  gives {j n} _ h := by
    unfold Json.natBelow? at h
    split at h
    · simp only [Option.ite_none_right_eq_some, Option.some.injEq] at h
      exact h.2 ▸ h.1
    · cases h

theorem undoes_word : Undoes Json.word? natJson (· < Word.unsignedEnd) :=
  undoes_natBelow Word.unsignedEnd

theorem undoes_variant {all : List α} {name : α → String} (bare : Json → Bool)
    (h : ∀ a, all.find? (name · == name a) = some a) :
    Undoes (variant? bare all name) (fun a => .str (name a)) fun _ => True :=
  ⟨fun a _ => h a, fun _ _ => trivial⟩

/-! ## Lists and tables -/

private theorem mapM_map {f : β → Option α} {g : α → β} {l : List α}
    (h : ∀ a ∈ l, f (g a) = some a) : (l.map g).mapM f = some l := by
  induction l with
  | nil => rfl
  | cons a l ih =>
    simp [List.mapM_cons, h a (by simp), ih fun b hb => h b (List.mem_cons_of_mem _ hb)]

private theorem exists_of_mem_mapM {f : β → Option α} {l : List β} {l' : List α}
    (h : l.mapM f = some l') {a : α} (ha : a ∈ l') : ∃ b ∈ l, f b = some a := by
  induction l generalizing l' with
  | nil =>
    cases h
    simp at ha
  | cons b l ih =>
    simp only [List.mapM_cons, Option.bind_eq_bind, Option.bind_eq_some_iff, Option.pure_def,
      Option.some.injEq] at h
    obtain ⟨a', ha', l'', hl, rfl⟩ := h
    obtain rfl | hmem := List.mem_cons.1 ha
    · exact ⟨b, by simp, ha'⟩
    · obtain ⟨c, hc, hca⟩ := ih hl hmem
      exact ⟨c, List.mem_cons_of_mem _ hc, hca⟩

theorem exists_of_listOf? {j : Json} {l : List α} (h : listOf? read j = some l) {a : α}
    (ha : a ∈ l) : ∃ items, j = .arr items ∧ ∃ v ∈ items, read v = some a := by
  cases j with
  | arr items => exact ⟨items, rfl, exists_of_mem_mapM h ha⟩
  | _ => cases h

theorem Undoes.listOf (h : Undoes read write P) :
    Undoes (listOf? read) (fun l => .arr (l.map write)) fun l => ∀ a ∈ l, P a where
  reads l hl := mapM_map fun a ha => h.reads a (hl a ha)
  gives {j l} hj hread a ha := by
    obtain ⟨items, rfl, v, hv, hva⟩ := exists_of_listOf? hread ha
    exact h.gives (hj.items v hv) hva

/-- The entries of a table stand in its object, each read from the member of its name. -/
theorem exists_of_tableOf? {j : Json} {m : KeyMap α} (h : tableOf? read j = some m) :
    m.Sorted ∧ ∀ e ∈ m.entries,
      ∃ members, j = .obj members ∧ ∃ v, (e.1, v) ∈ members ∧ read v = some e.2 := by
  cases j with
  | obj members =>
    simp only [tableOf?, Json.members?, Option.bind_eq_bind, Option.bind_some, Option.pure_def,
      Option.bind_eq_some_iff, Option.some.injEq] at h
    obtain ⟨entries, hentries, rfl⟩ := h
    refine ⟨KeyMap.sorted_ofList _, fun e he => ⟨members, rfl, ?_⟩⟩
    obtain ⟨⟨key, v⟩, hmem, hv⟩ := exists_of_mem_mapM hentries (KeyMap.mem_of_mem_ofList he)
    simp only [Option.bind_eq_some_iff, Option.some.injEq] at hv
    obtain ⟨a, ha, rfl⟩ := hv
    exact ⟨v, hmem, ha⟩
  | _ => cases h

theorem tableOf?_obj {m : KeyMap α} (hsorted : m.Sorted)
    (h : ∀ e ∈ m.entries, read (write e.2) = some e.2) :
    tableOf? read (.obj (m.entries.map fun e => (e.1, write e.2))) = some m := by
  have hentries : (m.entries.map fun e => (e.1, write e.2)).mapM
      (fun e => do return (e.1, ← read e.2)) = some m.entries :=
    mapM_map fun e he => by simp [h e he]
  simp only [tableOf?, Json.members?, Option.bind_eq_bind, Option.bind_some, Option.pure_def] at *
  rw [hentries, Option.bind_some, hsorted.ofList_entries]

theorem Undoes.tableOf (h : Undoes read write P) :
    Undoes (tableOf? read) (fun m => .obj (m.entries.map fun e => (e.1, write e.2)))
      fun m => m.Sorted ∧ ∀ e ∈ m.entries, P e.2 where
  reads m hm := tableOf?_obj hm.1 fun e he => h.reads e.2 (hm.2 e he)
  gives {j m} hj hread := by
    obtain ⟨hsorted, hentries⟩ := exists_of_tableOf? hread
    refine ⟨hsorted, fun e he => ?_⟩
    obtain ⟨members, rfl, v, hv, hve⟩ := hentries e he
    exact h.gives (hj.members (e.1, v) hv) hve

theorem undoes_map : Undoes map? Json.ofMap KeyMap.Sorted where
  reads m hm := congrArg some hm.ofList_entries
  gives {j m} _ h := by
    simp only [map?, Option.map_eq_some_iff] at h
    obtain ⟨members, _, rfl⟩ := h
    exact KeyMap.sorted_ofList members

/-! ## Optional values -/

theorem nullable?_of_ne {j : Json} (h : j ≠ .null) : nullable? read j = (read j).map some := by
  unfold nullable?
  split
  · exact absurd rfl h
  · rfl

/-- An optional value reads back from null or from its own form, which must not be null. -/
theorem Undoes.nullable (h : Undoes read write P) (hne : ∀ a, P a → write a ≠ .null) :
    Undoes (nullable? read) (fun o => nullOr (o.map write)) fun o => ∀ a ∈ o, P a where
  reads
    | none, _ => rfl
    | some a, ha => by
      have hwritten : nullable? read (write a) = some (some a) := by
        rw [nullable?_of_ne (hne a (ha a rfl)), h.reads a (ha a rfl), Option.map_some]
      exact hwritten
  gives {j o} hj hread a ha := by
    by_cases hnull : j = .null
    · subst hnull
      cases hread
      cases ha
    · rw [nullable?_of_ne hnull, Option.map_eq_some_iff] at hread
      obtain ⟨b, hb, rfl⟩ := hread
      cases ha
      exact h.gives hj hb

/-- A field that is left out for none reads back as one that is null for none does. -/
theorem Undoes.elim (h : Undoes (nullable? read) (fun o => nullOr (o.map write)) Q) {o : Option α}
    (ho : Q o) : o.elim (some none) (nullable? read ∘ write) = some o := by
  cases o with
  | none => rfl
  | some a => exact h.reads (some a) ho

theorem undoes_optionalText :
    Undoes (nullable? Json.text?) (fun o => nullOr (o.map .str)) fun _ => True where
  reads o _ := (undoes_text.nullable fun _ _ => nofun).reads o fun _ _ => trivial
  gives _ _ := trivial

@[simp] theorem elim_text (o : Option String) :
    o.elim (some none) (nullable? Json.text? ∘ Json.str) = some o :=
  undoes_optionalText.elim trivial

@[simp] theorem nullable?_ofText? (o : Option String) :
    nullable? Json.text? (Json.ofText? o) = some o := by
  cases o <;> rfl

theorem undoes_optionalWord :
    Undoes (nullable? Json.word?) (fun o => nullOr (o.map natJson))
      fun o => ∀ n ∈ o, n < Word.unsignedEnd :=
  undoes_word.nullable fun _ _ => nofun

/-- A value of any kind, with null for none. -/
theorem undoes_any : Undoes (nullable? some) nullOr fun o => o ≠ some .null where
  reads
    | none, _ => rfl
    | some j, h => nullable?_of_ne fun hnull => h (congrArg some hnull)
  gives {j o} _ hread hnull := by
    subst hnull
    by_cases hj : j = .null
    · subst hj
      cases hread
    · rw [nullable?_of_ne hj] at hread
      cases hread
      exact hj rfl

theorem elim_any {o : Option Json} (h : o ≠ some .null) :
    o.elim (some none) (nullable? some) = some o := by
  cases o with
  | none => rfl
  | some j => exact undoes_any.reads (some j) h

/-! ## Fields -/

@[simp] theorem lookup_cons (key key' : String) (v : Json) (ms : Members) :
    List.lookup key ((key', v) :: ms) = if key = key' then some v else ms.lookup key := by
  by_cases h : key = key' <;> simp [List.lookup_cons, h, beq_eq_false_iff_ne.2]

@[simp] theorem lookup_append (ms ms' : Members) (key : String) :
    (ms ++ ms').lookup key = (ms.lookup key).or (ms'.lookup key) := by
  induction ms with
  | nil => rfl
  | cons e ms ih =>
    rw [List.cons_append, lookup_cons, lookup_cons, ih]
    split <;> rfl

@[simp] theorem lookup_field? (key key' : String) (v : Option Json) :
    (field? key v).lookup key' = if key' = key then v else none := by
  cases v <;> simp [field?]

/-- A record written as a list holds its fields at their places. -/
theorem lookup_zip {names : List String} {place : Nat} {key : String} (items : List Json)
    (hplace : names[place]? = some key) (hfirst : key ∉ names.take place) :
    (names.zip items).lookup key = items[place]? := by
  induction names generalizing place items with
  | nil => simp at hplace
  | cons name names ih =>
    cases items with
    | nil => simp
    | cons v items =>
      cases place with
      | zero => simp_all
      | succ place =>
        have hne : key ≠ name := fun heq => hfirst (by simp [heq])
        have hrest : key ∉ names.take place := fun hmem => hfirst (by simp [hmem])
        simpa [hne] using ih items (by simpa using hplace) hrest

theorem mem_of_lookup {ms : Members} {key : String} {v : Json} (h : ms.lookup key = some v) :
    (key, v) ∈ ms := by
  induction ms with
  | nil => cases h
  | cons e ms ih =>
    rw [lookup_cons] at h
    split at h
    · rename_i hkey
      cases h
      simp [hkey]
    · exact List.mem_cons_of_mem _ (ih h)

/-- The numbers of all members are in range. -/
def RangedMembers (ms : Members) : Prop := ∀ e ∈ ms, e.2.InRange

/-- The members of a record are parts of what it was read from. -/
theorem part_of_members? {r : Record} {j : Json} {ms : Members} (h : members? r j = some ms)
    {e : String × Json} (he : e ∈ ms) :
    (∃ members, j = .obj members ∧ e ∈ members) ∨ ∃ items, j = .arr items ∧ e.2 ∈ items := by
  unfold members? at h
  split at h
  · cases h
    exact .inl ⟨ms, rfl, he⟩
  · simp only [Option.ite_none_right_eq_some, Option.some.injEq] at h
    obtain ⟨_, rfl⟩ := h
    exact .inr ⟨_, rfl, (List.of_mem_zip he).2⟩
  · cases h

theorem ranged_of_members? {r : Record} {j : Json} {ms : Members} (hj : j.InRange)
    (h : members? r j = some ms) : RangedMembers ms := by
  intro e he
  obtain ⟨members, rfl, hmem⟩ | ⟨items, rfl, hmem⟩ := part_of_members? h he
  · exact hj.members e hmem
  · exact hj.items e.2 hmem

theorem sizeOf_lt_of_mem_obj {members : Members} {e : String × Json} (h : e ∈ members) :
    sizeOf e.2 < sizeOf (Json.obj members) := by
  have hlt := List.sizeOf_lt_of_mem h
  obtain ⟨key, v⟩ := e
  simp only [Prod.mk.sizeOf_spec, Json.obj.sizeOf_spec] at hlt ⊢
  omega

theorem sizeOf_lt_of_members? {r : Record} {j : Json} {ms : Members} (h : members? r j = some ms)
    {e : String × Json} (he : e ∈ ms) : sizeOf e.2 < sizeOf j := by
  obtain ⟨members, rfl, hmem⟩ | ⟨items, rfl, hmem⟩ := part_of_members? h he
  · exact sizeOf_lt_of_mem_obj hmem
  · have hlt := List.sizeOf_lt_of_mem hmem
    simp only [Json.arr.sizeOf_spec]
    omega

/-- What a field is read from: the value under its key, and the fallback when there is none. -/
theorem defaulted?_eq (ms : Members) (key : String) (fallback : α) (read : Json → Option α) :
    defaulted? ms key fallback read = (ms.lookup key).elim (some fallback) read := by
  unfold defaulted?
  cases ms.lookup key <;> rfl

theorem exists_of_required? {ms : Members} {key : String} {a : α}
    (h : required? ms key read = some a) : ∃ v, (key, v) ∈ ms ∧ read v = some a := by
  obtain ⟨v, hv, hread⟩ := Option.bind_eq_some_iff.1 h
  exact ⟨v, mem_of_lookup hv, hread⟩

theorem exists_of_defaulted? {ms : Members} {key : String} {fallback a : α}
    (h : defaulted? ms key fallback read = some a) :
    a = fallback ∨ ∃ v, (key, v) ∈ ms ∧ read v = some a := by
  rw [defaulted?_eq] at h
  cases hv : ms.lookup key with
  | none =>
    rw [hv] at h
    cases h
    exact .inl rfl
  | some v =>
    rw [hv] at h
    exact .inr ⟨v, mem_of_lookup hv, h⟩

theorem Undoes.of_required (h : Undoes read write P) {ms : Members} (hms : RangedMembers ms)
    {key : String} {a : α} (hread : required? ms key read = some a) : P a := by
  obtain ⟨v, hv, hva⟩ := exists_of_required? hread
  exact h.gives (hms _ hv) hva

theorem Undoes.of_defaulted (h : Undoes read write P) {ms : Members} (hms : RangedMembers ms)
    {key : String} {fallback a : α} (hfallback : P fallback)
    (hread : defaulted? ms key fallback read = some a) : P a := by
  obtain rfl | ⟨v, hv, hva⟩ := exists_of_defaulted? hread
  · exact hfallback
  · exact h.gives (hms _ hv) hva

theorem Undoes.of_optional {write : Option α → Json} (h : Undoes (nullable? read) write Q)
    {ms : Members} (hms : RangedMembers ms) {key : String} {o : Option α} (hnone : Q none)
    (hread : optional? ms key read = some o) : Q o :=
  h.of_defaulted hms hnone hread

end Undoes

/-- Records whose children are a table of such records: what holds of a record when it holds of its
children holds of all that are read. -/
theorem gives_of_children {r : Record} {key : String} {decode? : Json → Option α}
    {ofMembers? : Members → Option (KeyMap α) → Option α} {P : α → Prop}
    (hdecode : ∀ j, decode? j = (members? r j).bind fun ms =>
      (optional? ms key (tableOf? decode?)).bind (ofMembers? ms))
    (hstep : ∀ {ms children a}, RangedMembers ms → ofMembers? ms children = some a →
      (∀ t ∈ children, t.Sorted) → (∀ t ∈ children, ∀ e ∈ t.entries, P e.2) → P a)
    {j : Json} {a : α} (hj : j.InRange) (h : decode? j = some a) : P a := by
  rw [hdecode, Option.bind_eq_some_iff] at h
  obtain ⟨ms, hms, h⟩ := h
  rw [Option.bind_eq_some_iff] at h
  obtain ⟨children, hchildren, h⟩ := h
  have hranged := ranged_of_members? hj hms
  have hentry : ∀ t ∈ children, t.Sorted ∧ ∀ e ∈ t.entries, P e.2 := by
    rintro t rfl
    obtain hnone | ⟨v, hv, hvt⟩ := exists_of_defaulted? hchildren
    · cases hnone
    · have hne : v ≠ .null := fun hnull => by
        subst hnull
        cases hvt
      rw [nullable?_of_ne hne, Option.map_eq_some_iff] at hvt
      obtain ⟨t', ht', ht⟩ := hvt
      cases ht
      obtain ⟨hsorted, hentries⟩ := exists_of_tableOf? ht'
      refine ⟨hsorted, fun e he => ?_⟩
      obtain ⟨members, rfl, v, hmem, hve⟩ := hentries e he
      have hsmaller : sizeOf v < sizeOf j :=
        Nat.lt_trans (sizeOf_lt_of_mem_obj hmem) (sizeOf_lt_of_members? hms hv)
      exact gives_of_children hdecode hstep ((hranged _ hv).members _ hmem) hve
  exact hstep hranged h (fun t ht => (hentry t ht).1) fun t ht => (hentry t ht).2
termination_by sizeOf j

/-- The children of a record read back when each of them does. -/
theorem elim_table {read : Json → Option α} {write : α → Json} {children : Option (KeyMap α)}
    (hsorted : ∀ t ∈ children, t.Sorted)
    (h : ∀ t ∈ children, ∀ e ∈ t.entries, read (write e.2) = some e.2) :
    children.elim (some none) (nullable? (tableOf? read) ∘
      fun t => .obj (t.entries.map fun e => (e.1, write e.2))) = some children := by
  cases children with
  | none => rfl
  | some t =>
    have htable := tableOf?_obj (hsorted t rfl) (h t rfl)
    simp [nullable?, htable]

end WorkflowEngine.Wire
