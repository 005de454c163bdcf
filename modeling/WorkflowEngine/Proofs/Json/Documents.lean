import Mathlib.Data.List.Infix
import WorkflowEngine.Proofs.Json.Numerals
import WorkflowEngine.Proofs.Json.Strings

/-!
# Documents read back

Printing a value and reading it gives the value, when the reader expects values of its shape, its
floats read back and lists and objects lie no more than 127 deep in one another. Deeper ones are
printed, but never read.
-/

namespace WorkflowEngine.Json

/-! ## Nesting -/

mutual

/-- How many lists and objects lie inside of one another. -/
def nesting : Json → Nat
  | .arr items => nestingItems items + 1
  | .obj members => nestingMembers members + 1
  | _ => 0

def nestingItems : List Json → Nat
  | [] => 0
  | v :: rest => max v.nesting (nestingItems rest)

def nestingMembers : List (String × Json) → Nat
  | [] => 0
  | (_, v) :: rest => max v.nesting (nestingMembers rest)

end

theorem nesting_arr_le {items : List Json} {n : Nat} :
    (Json.arr items).nesting ≤ n + 1 ↔ ∀ v ∈ items, v.nesting ≤ n := by
  simp only [nesting, Nat.add_le_add_iff_right]
  induction items with
  | nil => simp [nestingItems]
  | cons v rest ih => simp [nestingItems, Nat.max_le, ih]

theorem nesting_obj_le {members : List (String × Json)} {n : Nat} :
    (Json.obj members).nesting ≤ n + 1 ↔ ∀ e ∈ members, e.2.nesting ≤ n := by
  simp only [nesting, Nat.add_le_add_iff_right]
  induction members with
  | nil => simp [nestingMembers]
  | cons e rest ih =>
    rw [nestingMembers, Nat.max_le, ih, List.forall_mem_cons]

/-! ## Shapes of values -/

/-- The members that a reader of a shape keeps as they stand: of a record its fields in their order,
of a plain value those whose keys increase. -/
def Shape.Keeps (s : Shape) (members : List (String × Json)) : Prop :=
  match s with
  | .record r => (members.map (·.1)).Sublist r.fieldNames
  | .table _ | .word | .event => True
  | .value | .list _ => members.Pairwise (·.1 < ·.1)
  | .skipped => False

/-- A value that a reader of a shape keeps as it stands. -/
inductive Suits : Shape → Json → Prop
  | null {s : Shape} (hs : s.counts = true) : Suits s .null
  | bool {s : Shape} (hs : s.counts = true) (b : Bool) : Suits s (.bool b)
  | int {s : Shape} (hs : s.counts = true) {n : Int} (hn : InRange (.int n)) : Suits s (.int n)
  | float {s : Shape} (hs : s.counts = true) {x : Binary64} (hx : x.Rereads) : Suits s (.float x)
  | str {s : Shape} (hs : s.counts = true) (t : String) : Suits s (.str t)
  | arr {s : Shape} (hs : s.counts = true) {items : List Json}
      (h : ∀ i v, items[i]? = some v → Suits (s.item i) v) : Suits s (.arr items)
  | obj {s : Shape} (hs : s.counts = true) {members : List (String × Json)}
      (hk : s.Keeps members) (h : ∀ e ∈ members, Suits (s.member e.1) e.2) : Suits s (.obj members)

/-- A value that a reader of any value keeps as it stands. -/
abbrev Plain (v : Json) : Prop := Suits .value v

@[simp] theorem suits_null {s : Shape} : Suits s .null ↔ s.counts = true :=
  ⟨fun h => by cases h; assumption, .null⟩

@[simp] theorem suits_bool {s : Shape} {b : Bool} : Suits s (.bool b) ↔ s.counts = true :=
  ⟨fun h => by cases h; assumption, fun h => .bool h b⟩

@[simp] theorem suits_str {s : Shape} {t : String} : Suits s (.str t) ↔ s.counts = true :=
  ⟨fun h => by cases h; assumption, fun h => .str h t⟩

theorem nodup_fieldNames (r : Record) : r.fieldNames.Nodup := by
  cases r <;> decide

/-- A member that is kept is added to those before it. -/
theorem Shape.Keeps.addMember {s : Shape} {read rest : List (String × Json)} {key : String}
    {v : Json} (h : s.Keeps (read.reverse ++ (key, v) :: rest)) :
    addMember s read key v = some ((key, v) :: read) := by
  cases s with
  | record r =>
    have hkeys : ((read.reverse ++ (key, v) :: rest).map (·.1)).Sublist r.fieldNames := h
    have hmem : key ∈ r.fieldNames := hkeys.subset (by simp)
    have hnew : read.lookup key = none := by
      have hnodup := hkeys.nodup (nodup_fieldNames r)
      rw [List.map_append, List.nodup_append] at hnodup
      refine List.lookup_eq_none_iff.2 fun e he => ?_
      have hne := hnodup.2.2 e.1 (by simpa using ⟨e.2, he⟩) key (by simp)
      simpa using Ne.symm hne
    simp [Json.addMember, hmem, hnew]
  | skipped => exact h.elim
  | _ => rfl

/-- Members that are kept make their object. -/
theorem Shape.Keeps.closeObject {s : Shape} {members : List (String × Json)} (h : s.Keeps members) :
    closeObject s members.reverse = .obj members := by
  have hsorted {members : List (String × Json)} (h : members.Pairwise (·.1 < ·.1)) :
      Json.ofMap (KeyMap.ofList members.reverse.reverse) = .obj members := by
    have hmap : KeyMap.ofList (KeyMap.mk members).entries = ⟨members⟩ := KeyMap.Sorted.ofList_entries h
    rw [List.reverse_reverse, hmap]
    rfl
  cases s with
  | value => exact hsorted h
  | list item => exact hsorted h
  | skipped => exact h.elim
  | _ => simp [Json.closeObject]

/-! ## Reading -/

/-- A reader of a shape gives a value when its text comes first, with enough depth and fuel left. -/
def Returns (s : Shape) (v : Json) : Prop :=
  ∀ (depth fuel : Nat) (rest : List Char), v.nesting < depth → v.compact.toList.length < fuel →
    Ends rest → readValue s depth fuel (v.compact.toList ++ rest) = some (v, rest)

/-- What is read as a value does not start with a closing bracket. -/
theorem skipBlanks_ne_of_readValue {s : Shape} {depth fuel : Nat} {cs r t : List Char} {v : Json}
    (h : readValue s depth fuel cs = some (v, r)) : skipBlanks cs ≠ ']' :: t := by
  intro hcs
  cases fuel with
  | zero => cases h
  | succ fuel =>
    rw [← readValue_skipBlanks, hcs] at h
    have hnone : readValue s depth (fuel + 1) (']' :: t) = none := rfl
    rw [hnone] at h
    cases h

/-- Neither does what is read as the items of a list. -/
theorem skipBlanks_ne_of_readItems {s : Shape} {depth index fuel : Nat} {read : List Json}
    {cs t : List Char} {p : Json × List Char} (h : readItems s depth index read fuel cs = some p) :
    skipBlanks cs ≠ ']' :: t := by
  cases fuel with
  | zero => cases h
  | succ fuel =>
    rw [readItems] at h
    obtain ⟨⟨v, r⟩, hv, -⟩ := Option.bind_eq_some_iff.1 h
    exact skipBlanks_ne_of_readValue hv

theorem ends_comma (rest : List Char) : Ends (',' :: rest) := by
  rintro c ⟨⟩
  exact .inl rfl

theorem ends_bracket (rest : List Char) : Ends (']' :: rest) := by
  rintro c ⟨⟩
  exact .inr (.inl rfl)

theorem ends_brace (rest : List Char) : Ends ('\x7d' :: rest) := by
  rintro c ⟨⟩
  exact .inr (.inr rfl)

def itemsText (items : List Json) : List Char :=
  [','].intercalate (items.map fun v => v.compact.toList)

theorem toList_compact_arr (items : List Json) :
    (Json.arr items).compact.toList = '[' :: (itemsText items ++ [']']) := by
  have hitems (items : List Json) : (compactItems items).map String.toList =
      items.map fun v => v.compact.toList := by
    induction items with
    | nil => rfl
    | cons v rest ih => simp [compactItems, ih]
  simp [compact, itemsText, hitems]

/-- The text of a member. -/
def memberText (e : String × Json) : List Char :=
  '"' :: (e.1.toList.flatMap escape ++ '"' :: ':' :: e.2.compact.toList)

def membersText (members : List (String × Json)) : List Char :=
  [','].intercalate (members.map memberText)

theorem toList_compact_obj (members : List (String × Json)) :
    (Json.obj members).compact.toList = '\x7b' :: (membersText members ++ ['\x7d']) := by
  have hmembers (members : List (String × Json)) : (compactMembers members).map String.toList =
      members.map memberText := by
    induction members with
    | nil => rfl
    | cons e rest ih =>
      obtain ⟨key, v⟩ := e
      simp [compactMembers, memberText, toList_quote, ih]
  simp [compact, membersText, hmembers]

/-- The items of a list are read one after another. -/
theorem readItems_itemsText {s : Shape} {depth : Nat} {v : Json} {items : List Json} (index : Nat)
    (h : ∀ i w, (v :: items)[i]? = some w → Returns (s.item (index + i)) w)
    (hn : ∀ w ∈ v :: items, w.nesting < depth) {fuel : Nat} (read : List Json) (rest : List Char)
    (hfuel : (itemsText (v :: items)).length + 1 < fuel) :
    readItems s depth index read fuel (itemsText (v :: items) ++ ']' :: rest) =
      some (.arr (read.reverse ++ v :: items), rest) := by
  induction items generalizing v index read fuel with
  | nil =>
    obtain ⟨fuel, rfl⟩ : ∃ k, fuel = k + 1 := ⟨fuel - 1, by omega⟩
    have hv : readValue (s.item index) depth fuel (v.compact.toList ++ ']' :: rest) =
        some (v, ']' :: rest) :=
      h 0 v rfl _ _ _ (hn v (by simp)) (by simpa [itemsText] using hfuel) (ends_bracket rest)
    simp [readItems, itemsText, hv, skipBlanks_cons (by decide : isBlank ']' = false)]
  | cons w items ih =>
    obtain ⟨fuel, rfl⟩ : ∃ k, fuel = k + 1 := ⟨fuel - 1, by omega⟩
    have htext : itemsText (v :: w :: items) = v.compact.toList ++ ',' :: itemsText (w :: items) := by
      simp [itemsText]
    rw [htext, List.length_append, List.length_cons] at hfuel
    have hv : readValue (s.item index) depth fuel
        (v.compact.toList ++ ',' :: (itemsText (w :: items) ++ ']' :: rest)) =
          some (v, ',' :: (itemsText (w :: items) ++ ']' :: rest)) :=
      h 0 v rfl _ _ _ (hn v (by simp)) (by omega) (ends_comma _)
    have hitems (i : Nat) (x : Json) (hx : (w :: items)[i]? = some x) :
        Returns (s.item (index + 1 + i)) x := by
      rw [Nat.add_assoc, Nat.add_comm 1]
      exact h (i + 1) x (by simpa using hx)
    have hrest := ih (index + 1) hitems (fun x hx => hn x (List.mem_cons_of_mem _ hx)) (v :: read)
      (by omega : (itemsText (w :: items)).length + 1 < fuel)
    simp [readItems, htext, hv, skipBlanks_cons (by decide : isBlank ',' = false), hrest]

/-- A member is read, and then what follows it. -/
theorem readMembers_memberText {s : Shape} (hs : s.counts = true) {depth fuel : Nat}
    {read : List (String × Json)} {key : String} {v : Json} {next : List Char}
    (hv : readValue (s.member key) depth fuel (v.compact.toList ++ next) = some (v, next))
    (hadd : addMember s read key v = some ((key, v) :: read)) :
    readMembers s depth read (fuel + 1) (memberText (key, v) ++ next) =
      match skipBlanks next with
      | ',' :: rest => readMembers s depth ((key, v) :: read) fuel rest
      | '\x7d' :: rest => some (closeObject s ((key, v) :: read), rest)
      | _ => none := by
  have hquote : isBlank '"' = false := by decide
  have hcolon : isBlank ':' = false := by decide
  have htext : memberText (key, v) ++ next =
      '"' :: (key.toList.flatMap escape ++ '"' :: ':' :: (v.compact.toList ++ next)) := by
    simp [memberText]
  rw [htext, readMembers]
  simp only [skipBlanks_cons hquote, hs, Bool.not_true, string?_escaped, Option.bind_eq_bind,
    Option.bind_some, skipBlanks_cons hcolon, hv, hadd, Option.pure_def] <;> rfl

/-- The members of an object are read one after another. -/
theorem readMembers_membersText {s : Shape} (hs : s.counts = true) {depth : Nat} {key : String}
    {v : Json} {members : List (String × Json)}
    (h : ∀ e ∈ (key, v) :: members, Returns (s.member e.1) e.2)
    (hn : ∀ e ∈ (key, v) :: members, e.2.nesting < depth) {fuel : Nat}
    (read : List (String × Json)) (hk : s.Keeps (read.reverse ++ (key, v) :: members))
    (rest : List Char) (hfuel : (membersText ((key, v) :: members)).length + 1 < fuel) :
    readMembers s depth read fuel (membersText ((key, v) :: members) ++ '\x7d' :: rest) =
      some (.obj (read.reverse ++ (key, v) :: members), rest) := by
  have hshort : v.compact.toList.length < (memberText (key, v)).length := by
    simp only [memberText, List.length_cons, List.length_append]
    omega
  induction members generalizing key v read fuel with
  | nil =>
    obtain ⟨fuel, rfl⟩ : ∃ k, fuel = k + 1 := ⟨fuel - 1, by omega⟩
    have htext : membersText [(key, v)] = memberText (key, v) := by simp [membersText]
    rw [htext] at hfuel ⊢
    have hv := h (key, v) (by simp) depth fuel ('\x7d' :: rest) (hn (key, v) (by simp))
      (by simp only; omega) (ends_brace rest)
    have hclose := hk.closeObject
    rw [List.reverse_append, List.reverse_reverse] at hclose
    rw [readMembers_memberText hs hv hk.addMember, ← hclose]
    rfl
  | cons e members ih =>
    obtain ⟨fuel, rfl⟩ : ∃ k, fuel = k + 1 := ⟨fuel - 1, by omega⟩
    obtain ⟨key', v'⟩ := e
    have htext : membersText ((key, v) :: (key', v') :: members) =
        memberText (key, v) ++ ',' :: membersText ((key', v') :: members) := by
      simp [membersText]
    rw [htext, List.length_append, List.length_cons] at hfuel
    rw [htext, List.append_assoc, List.cons_append]
    have hv := h (key, v) (by simp) depth fuel
      (',' :: (membersText ((key', v') :: members) ++ '\x7d' :: rest)) (hn (key, v) (by simp))
      (by simp only; omega) (ends_comma _)
    have hk' : s.Keeps (((key, v) :: read).reverse ++ (key', v') :: members) := by simpa using hk
    rw [readMembers_memberText hs hv hk.addMember]
    have hrest := ih (fun e he => h e (List.mem_cons_of_mem _ he))
      (fun e he => hn e (List.mem_cons_of_mem _ he)) ((key, v) :: read) hk'
      (by omega : (membersText ((key', v') :: members)).length + 1 < fuel)
      (by simp only [memberText, List.length_cons, List.length_append]; omega)
    rw [List.reverse_cons, List.append_assoc] at hrest
    exact hrest

theorem readValue_string {s : Shape} (hs : s.counts = true) (depth fuel : Nat) (t : String)
    (rest : List Char) :
    readValue s depth (fuel + 1) ((quote t).toList ++ rest) = some (.str t, rest) := by
  have htext : (quote t).toList ++ rest = '"' :: (t.toList.flatMap escape ++ '"' :: rest) := by
    simp [toList_quote]
  rw [htext, readValue, skipBlanks_cons (by decide)]
  simp [hs, string?_escaped]

/-- A list that does not end at once is read item by item. -/
theorem readValue_bracket {s : Shape} {depth fuel : Nat} (hd : 0 < depth) {cs : List Char}
    (hcs : ∀ t, skipBlanks cs ≠ ']' :: t) : readValue s (depth + 1) (fuel + 1) ('[' :: cs) =
      readItems s depth 0 [] fuel cs := by
  have hskip : readItems s depth 0 [] fuel (skipBlanks cs) = readItems s depth 0 [] fuel cs := by
    cases fuel with
    | zero => rfl
    | succ fuel => rw [readItems, readItems, readValue_skipBlanks]
  have hdeep : (s.counts && decide (depth + 1 ≤ 1)) = false := by
    simp only [Bool.and_eq_false_iff, decide_eq_false_iff_not]
    omega
  rw [readValue, skipBlanks_cons (by decide)]
  simp only [hdeep, Bool.false_eq_true, if_false, Nat.add_sub_cancel]
  rw [← hskip]

/-- An object that does not end at once is read member by member. -/
theorem readValue_brace {s : Shape} {depth fuel : Nat} (hd : 0 < depth) (cs : List Char) :
    readValue s (depth + 1) (fuel + 1) ('\x7b' :: '"' :: cs) =
      readMembers s depth [] fuel ('"' :: cs) := by
  have hdeep : (s.counts && decide (depth + 1 ≤ 1)) = false := by
    simp only [Bool.and_eq_false_iff, decide_eq_false_iff_not]
    omega
  rw [readValue, skipBlanks_cons (by decide)]
  simp only [hdeep, Bool.false_eq_true, if_false, Nat.add_sub_cancel,
    skipBlanks_cons (by decide : isBlank '"' = false)]
  rfl

theorem readValue_empty (s : Shape) {depth : Nat} (fuel : Nat) (hd : 0 < depth) (rest : List Char) :
    readValue s (depth + 1) (fuel + 1) ('[' :: ']' :: rest) = some (.arr [], rest) ∧
      readValue s (depth + 1) (fuel + 1) ('\x7b' :: '\x7d' :: rest) =
        some (closeObject s [], rest) := by
  have hdeep : (s.counts && decide (depth + 1 ≤ 1)) = false := by
    simp only [Bool.and_eq_false_iff, decide_eq_false_iff_not]
    omega
  constructor
  · rw [readValue, skipBlanks_cons (by decide)]
    simp only [hdeep, Bool.false_eq_true, if_false]
    rfl
  · rw [readValue, skipBlanks_cons (by decide)]
    simp only [hdeep, Bool.false_eq_true, if_false]
    rfl

/-- A list is read back when its items are. -/
theorem returns_arr {s : Shape} {items : List Json}
    (h : ∀ i v, items[i]? = some v → Returns (s.item i) v) : Returns s (.arr items) := by
  intro depth fuel rest hn hfuel hrest
  obtain ⟨fuel, rfl⟩ : ∃ k, fuel = k + 1 := ⟨fuel - 1, by omega⟩
  obtain ⟨depth, rfl⟩ : ∃ k, depth = k + 2 := ⟨depth - 2, by simp only [nesting] at hn; omega⟩
  rw [toList_compact_arr] at hfuel ⊢
  rw [List.cons_append, List.append_assoc, List.singleton_append]
  cases items with
  | nil => exact (readValue_empty s _ (by omega) rest).1
  | cons v items =>
    have hread := readItems_itemsText 0 (fun i w hw => by simpa using h i w hw)
      (fun w hw => Nat.lt_succ_of_le (nesting_arr_le.1 (Nat.le_of_lt_succ hn) w hw)) [] rest
      (by simpa using hfuel : (itemsText (v :: items)).length + 1 < fuel)
    rw [readValue_bracket (by omega) fun t => skipBlanks_ne_of_readItems hread, hread]
    rfl

/-- An object is read back when its members are kept and read back. -/
theorem returns_obj {s : Shape} (hs : s.counts = true) {members : List (String × Json)}
    (hk : s.Keeps members) (h : ∀ e ∈ members, Returns (s.member e.1) e.2) :
    Returns s (.obj members) := by
  intro depth fuel rest hn hfuel hrest
  obtain ⟨fuel, rfl⟩ : ∃ k, fuel = k + 1 := ⟨fuel - 1, by omega⟩
  obtain ⟨depth, rfl⟩ : ∃ k, depth = k + 2 := ⟨depth - 2, by simp only [nesting] at hn; omega⟩
  rw [toList_compact_obj] at hfuel ⊢
  rw [List.cons_append, List.append_assoc, List.singleton_append]
  cases members with
  | nil =>
    have hclose : closeObject s [] = .obj [] := hk.closeObject
    have hread := (readValue_empty s fuel (by omega : 0 < depth + 1) rest).2
    rwa [hclose] at hread
  | cons e members =>
    obtain ⟨key, v⟩ := e
    have hread := readMembers_membersText hs h
      (fun e he => Nat.lt_succ_of_le (nesting_obj_le.1 (Nat.le_of_lt_succ hn) e he)) []
      hk rest (by simpa using hfuel : (membersText ((key, v) :: members)).length + 1 < fuel)
    obtain ⟨cs, hcs⟩ : ∃ cs, membersText ((key, v) :: members) ++ '\x7d' :: rest = '"' :: cs := by
      cases members <;> simp [membersText, memberText]
    rw [hcs] at hread ⊢
    rw [readValue_brace (by omega), hread]
    rfl

/-- The words of the grammar are read as their values. -/
theorem readValue_words (s : Shape) (depth fuel : Nat) (rest : List Char) :
    readValue s depth (fuel + 1) ("null".toList ++ rest) = some (.null, rest) ∧
      readValue s depth (fuel + 1) ("true".toList ++ rest) = some (.bool true, rest) ∧
      readValue s depth (fuel + 1) ("false".toList ++ rest) = some (.bool false, rest) :=
  ⟨rfl, rfl, rfl⟩

/-- A value of a shape is read back by a reader of the shape. -/
theorem Suits.returns {s : Shape} {v : Json} (h : Suits s v) : Returns s v := by
  induction h with
  | arr hs h ih => exact returns_arr ih
  | obj hs hk h ih => exact returns_obj hs hk ih
  | @null s hs =>
    rintro depth (_ | fuel) rest - hfuel -
    · cases hfuel
    · exact (readValue_words s depth fuel rest).1
  | @bool s hs b =>
    rintro depth (_ | fuel) rest - hfuel -
    · cases hfuel
    · cases b
      · exact (readValue_words s depth fuel rest).2.2
      · exact (readValue_words s depth fuel rest).2.1
  | int hs hn =>
    rintro depth (_ | fuel) rest - hfuel hrest
    · cases hfuel
    · exact readValue_int hs depth fuel hn hrest
  | float hs hx =>
    rintro depth (_ | fuel) rest - hfuel hrest
    · cases hfuel
    · exact readValue_float hs depth fuel hx hrest
  | str hs t =>
    rintro depth (_ | fuel) rest - hfuel hrest
    · cases hfuel
    · exact readValue_string hs depth fuel t rest

/-- A document of a shape is read back when its nesting has no more than 127 levels. -/
theorem read?_compact {s : Shape} {v : Json} (h : Suits s v) (hn : v.nesting ≤ 127) :
    read? s v.compact = some v := by
  have hread := h.returns 128 (2 * v.compact.toList.length + 2) [] (by omega) (by omega) .nil
  rw [List.append_nil] at hread
  rw [read?, hread]
  rfl

/-! ## Documents that are too deep -/

/-- An empty list inside of lists of one item. -/
def nested : Nat → Json
  | 0 => .arr []
  | levels + 1 => .arr [nested levels]

theorem nesting_nested (levels : Nat) : (nested levels).nesting = levels + 1 := by
  induction levels with
  | zero => rfl
  | succ levels ih => simp [nested, nesting, nestingItems, ih]

theorem exists_brackets (levels : Nat) : ∃ tail,
    (nested levels).compact.toList = List.replicate (levels + 1) '[' ++ tail := by
  induction levels with
  | zero => exact ⟨[']'], rfl⟩
  | succ levels ih =>
    obtain ⟨tail, htail⟩ := ih
    refine ⟨tail ++ [']'], ?_⟩
    rw [nested, toList_compact_arr, List.replicate_succ (n := levels + 1)]
    simp [itemsText, htail]

/-- The reader gives up at a list that has no level left. -/
theorem readValue_brackets (depth fuel : Nat) (cs : List Char) :
    readValue .value (depth + 1) fuel (List.replicate (depth + 1) '[' ++ cs) = none := by
  induction depth generalizing fuel with
  | zero => cases fuel <;> rfl
  | succ depth ih =>
    cases fuel with
    | zero => rfl
    | succ fuel =>
      have hcs (t : List Char) :
          skipBlanks (List.replicate (depth + 1) '[' ++ cs) ≠ ']' :: t := by
        rw [List.replicate_succ, List.cons_append, skipBlanks_cons (by decide)]
        nofun
      rw [List.replicate_succ, List.cons_append, readValue_bracket (by omega) hcs]
      cases fuel with
      | zero => rfl
      | succ fuel =>
        have hitem : Shape.item .value 0 = .value := rfl
        rw [readItems, hitem, ih]
        rfl

/-- An object with a member that has no level left is not read. -/
theorem read?_obj_nested (key : String) : read? .value (Json.obj [(key, nested 126)]).compact = none := by
  obtain ⟨tail, htail⟩ := exists_brackets 126
  have htext : (Json.obj [(key, nested 126)]).compact.toList = '\x7b' :: '"' ::
      (key.toList.flatMap escape ++ '"' :: ':' ::
        (List.replicate (126 + 1) '[' ++ (tail ++ ['\x7d']))) := by
    have hmember : membersText [(key, nested 126)] = memberText (key, nested 126) := by
      simp [membersText]
    rw [toList_compact_obj, hmember, memberText, htail, List.cons_append, List.append_assoc,
      List.cons_append, List.cons_append, List.append_assoc]
  have hmember (fuel : Nat) : readMembers .value 127 [] fuel ('"' ::
      (key.toList.flatMap escape ++ '"' :: ':' ::
        (List.replicate (126 + 1) '[' ++ (tail ++ ['\x7d'])))) = none := by
    cases fuel with
    | zero => rfl
    | succ fuel =>
      have hvalue : readValue (Shape.member .value key) 127 fuel
          (List.replicate (126 + 1) '[' ++ (tail ++ ['\x7d'])) = none :=
        readValue_brackets 126 fuel _
      rw [readMembers, skipBlanks_cons (by decide : isBlank '"' = false)]
      simp only [Shape.counts, Bool.not_true, string?_escaped, Option.bind_eq_bind,
        Option.bind_some, skipBlanks_cons (by decide : isBlank ':' = false), hvalue,
        Option.bind_none]
  rw [read?, htext, readValue_brace (by omega : 0 < 127), hmember]
  rfl

end WorkflowEngine.Json
