import Mathlib.Data.List.DropRight
import Mathlib.Data.List.TakeDrop
import Mathlib.Data.List.TakeWhile
import WorkflowEngine.Json.Printer
import WorkflowEngine.Json.Reader
import WorkflowEngine.Proofs.Json.Numbers
import WorkflowEngine.Proofs.Text.Digits

/-!
# Numbers read back

Whole numbers that fit in a word are read back from their digits. Whether a fraction is depends on
the number: the reader rounds more than once.
-/

namespace WorkflowEngine

namespace Json

/-- What may follow a value inside of a document. -/
def Ends (rest : List Char) : Prop := ∀ c ∈ rest.head?, c = ',' ∨ c = ']' ∨ c = '\x7d'

theorem Ends.nil : Ends [] := nofun

theorem Ends.isDigit {rest : List Char} (h : Ends rest) : ∀ c ∈ rest.head?, c.isDigit = false := by
  intro c hc
  rcases h c hc with rfl | rfl | rfl <;> rfl

theorem spanDigits_append (cs : List Char) {rest : List Char}
    (h : ∀ c ∈ rest.head?, c.isDigit = false) :
    Decimal.spanDigits (cs ++ rest) =
      ((Decimal.spanDigits cs).1, (Decimal.spanDigits cs).2 ++ rest) := by
  have hnone : rest.takeWhile Char.isDigit = [] ∧ rest.dropWhile Char.isDigit = rest := by
    cases rest with
    | nil => exact ⟨rfl, rfl⟩
    | cons c rest => simp [h c rfl]
  simp only [Decimal.spanDigits, List.span_eq_takeWhile_dropWhile, List.takeWhile_append,
    List.dropWhile_append, hnone, List.append_nil, Prod.mk.injEq]
  constructor
  · split
    · rename_i hall
      exact ((List.takeWhile_sublist _).eq_of_length hall).symm
    · rfl
  · split
    · rename_i hempty
      simp [List.isEmpty_iff.1 hempty]
    · rfl

theorem spanDigits_of_digits {ds : List Char} (h : ∀ c ∈ ds, c.isDigit = true) :
    Decimal.spanDigits ds = (ds, []) := by
  simp only [Decimal.spanDigits, List.span_eq_takeWhile_dropWhile, Prod.mk.injEq]
  exact ⟨List.takeWhile_eq_self_iff.2 h, List.dropWhile_eq_nil_iff.2 h⟩

/-- Digits without a zero in front of others. -/
theorem head?_toDigits (n : Nat) :
    (Nat.toDigits 10 n).head? = some '0' → (Nat.toDigits 10 n).length = 1 := by
  intro hzero
  cases hdigits : Nat.toDigits 10 n with
  | nil => simp [hdigits] at hzero
  | cons c cs =>
    obtain rfl : c = '0' := by simpa [hdigits] using hzero
    have hrest : ∀ d ∈ cs, d.isDigit = true := fun d hd =>
      Decimal.isDigit_of_mem_toDigits (n := n) (hdigits ▸ List.mem_cons_of_mem _ hd)
    have hvalue : Decimal.natOfDigits cs = n := by
      have hall := Decimal.natOfDigits_toDigits n
      rw [hdigits] at hall
      simpa [Decimal.natOfDigits, Decimal.digitValue] using hall
    have hlt : n < 10 ^ cs.length := hvalue ▸ Decimal.natOfDigits_lt hrest
    cases cs with
    | nil => rfl
    | cons d ds =>
      have hshort : (Nat.toDigits 10 n).length ≤ (d :: ds).length :=
        (Nat.length_toDigits_le_iff (by omega) (by simp)).2 hlt
      rw [hdigits] at hshort
      exact absurd hshort (by simp)

/-- The numeral of a natural number. -/
theorem numeral?_toDigits (negative : Bool) (n : Nat) {rest : List Char} (h : Ends rest) :
    numeral? negative (Nat.toDigits 10 n ++ rest) =
      some (⟨negative, Nat.toDigits 10 n, none, none⟩, rest) := by
  have hspan : Decimal.spanDigits (Nat.toDigits 10 n ++ rest) = (Nat.toDigits 10 n, rest) := by
    rw [spanDigits_append _ h.isDigit,
      spanDigits_of_digits fun c hc => Decimal.isDigit_of_mem_toDigits hc, List.nil_append]
  have hzero := head?_toDigits n
  simp only [numeral?, hspan]
  rw [if_neg (by simpa using hzero)]
  cases rest with
  | nil => rfl
  | cons c rest => rcases h c rfl with rfl | rfl | rfl <;> rfl

/-! ## Numerals in front of something else -/

section Append

variable {cs rest : List Char}

private theorem Ends.ne {c : Char} (h : Ends (c :: rest)) :
    c ≠ '.' ∧ c ≠ 'e' ∧ c ≠ 'E' ∧ c ≠ '-' ∧ c ≠ '+' := by
  rcases h c rfl with rfl | rfl | rfl <;> decide

theorem fractionPart?_append {f : Option (List Char)} {r : List Char}
    (hf : fractionPart? cs = some (f, r)) (h : Ends rest) :
    fractionPart? (cs ++ rest) = some (f, r ++ rest) := by
  unfold fractionPart? at hf
  split at hf
  · rename_i cs
    simp only [Option.ite_none_left_eq_some, Option.some.injEq, Prod.mk.injEq] at hf
    obtain ⟨hdigits, rfl, rfl⟩ := hf
    simp [fractionPart?, spanDigits_append cs h.isDigit, hdigits]
  · rename_i hpoint
    cases hf
    cases cs with
    | nil =>
      cases rest with
      | nil => rfl
      | cons c rest => simp [fractionPart?, h.ne]
    | cons c cs =>
      have hne : c ≠ '.' := fun hc => hpoint cs (hc ▸ rfl)
      simp [fractionPart?, hne]

theorem exponentSign_append (h : Ends rest) :
    exponentSign (cs ++ rest) = ((exponentSign cs).1, (exponentSign cs).2 ++ rest) := by
  cases cs with
  | nil =>
    cases rest with
    | nil => rfl
    | cons c rest => simp [exponentSign, h.ne]
  | cons c cs =>
    by_cases hminus : c = '-'
    · subst hminus
      rfl
    · by_cases hplus : c = '+'
      · subst hplus
        rfl
      · simp [exponentSign, hminus, hplus]

theorem exponentPart?_append {x : Option (Bool × List Char)} {r : List Char}
    (hx : exponentPart? cs = some (x, r)) (h : Ends rest) :
    exponentPart? (cs ++ rest) = some (x, r ++ rest) := by
  cases cs with
  | nil =>
    cases hx
    cases rest with
    | nil => rfl
    | cons c rest => simp [exponentPart?, h.ne]
  | cons c cs =>
    simp only [exponentPart?, List.cons_append] at hx ⊢
    split at hx
    · rename_i he
      simp only [Option.ite_none_left_eq_some, Option.some.injEq, Prod.mk.injEq] at hx
      obtain ⟨hdigits, rfl, rfl⟩ := hx
      simp [he, exponentSign_append h, spanDigits_append _ h.isDigit, hdigits]
    · rename_i he
      cases hx
      rw [if_neg he, List.cons_append]

/-- A numeral is read the same when something follows that cannot continue it. -/
theorem numeral?_append {negative : Bool} {n : Numeral} (hn : numeral? negative cs = some (n, []))
    (h : Ends rest) : numeral? negative (cs ++ rest) = some (n, rest) := by
  simp only [numeral?, spanDigits_append cs h.isDigit, Option.ite_none_left_eq_some,
    Option.bind_eq_bind, Option.bind_eq_some_iff, Option.pure_def, Option.some.injEq,
    Prod.mk.injEq] at hn ⊢
  obtain ⟨hzero, f, hf, x, hx, rfl, hr⟩ := hn
  refine ⟨hzero, _, fractionPart?_append hf h, _, exponentPart?_append hx h, rfl, ?_⟩
  rw [hr, List.nil_append]

end Append

/-! ## Numbers -/

/-- A shape that looks at its values. -/
theorem numberOf_eq {shape : Shape} (hs : shape.counts = true) (negative : Bool) (cs : List Char) :
    numberOf shape negative cs = (numeral? negative cs).bind fun n =>
      n.1.value?.map fun v => (v, n.2) := by
  unfold numberOf
  cases numeral? negative cs with
  | none => rfl
  | some n =>
    cases shape with
    | skipped => cases hs
    | _ => cases hv : n.1.value? <;> simp [hv]

theorem skipBlanks_cons {c : Char} (h : isBlank c = false) (cs : List Char) :
    skipBlanks (c :: cs) = c :: cs := by
  simp [skipBlanks, h]

theorem readValue_minus (shape : Shape) (depth fuel : Nat) (cs : List Char) :
    readValue shape depth (fuel + 1) ('-' :: cs) = numberOf shape true cs := rfl

theorem readValue_digit {c : Char} (h : c.isDigit = true) (shape : Shape) (depth fuel : Nat)
    (cs : List Char) : readValue shape depth (fuel + 1) (c :: cs) = numberOf shape false (c :: cs) := by
  have hblank : isBlank c = false := by
    simp only [isBlank, Bool.or_eq_false_iff, decide_eq_false_iff_not]
    refine ⟨⟨⟨?_, ?_⟩, ?_⟩, ?_⟩ <;> rintro rfl <;> cases h
  rw [readValue, skipBlanks_cons hblank]
  split
  case h_9 => rfl
  case h_1 heq => cases heq
  all_goals
    rename_i heq
    cases heq
    cases h

theorem exists_toDigits (n : Nat) :
    ∃ c cs, Nat.toDigits 10 n = c :: cs ∧ c.isDigit = true := by
  cases hdigits : Nat.toDigits 10 n with
  | nil => simp at hdigits
  | cons c cs =>
    exact ⟨c, cs, rfl, Decimal.isDigit_of_mem_toDigits (n := n) (hdigits ▸ List.mem_cons_self)⟩

/-- A whole number that fits in a word is read back. -/
theorem readValue_int {shape : Shape} (hs : shape.counts = true) (depth fuel : Nat) {n : Int}
    (hn : InRange (.int n)) {rest : List Char} (h : Ends rest) :
    readValue shape depth (fuel + 1) ((toString n).toList ++ rest) = some (.int n, rest) := by
  obtain ⟨hleast, hlimit⟩ : -(Word.signedEnd : Int) ≤ n ∧ n < Word.unsignedEnd := by
    cases hn
    exact ⟨‹_›, ‹_›⟩
  have hends : Word.signedEnd < Word.unsignedEnd := by decide
  cases n with
  | ofNat n =>
    obtain ⟨c, cs, hdigits, hdigit⟩ := exists_toDigits n
    have hlt : n < Word.unsignedEnd := Int.ofNat_lt.1 hlimit
    have htext : (toString (Int.ofNat n)).toList = Nat.toDigits 10 n := by
      simp [toString, Int.repr]
    rw [htext, hdigits, List.cons_append, readValue_digit hdigit, ← List.cons_append, ← hdigits,
      numberOf_eq hs, numeral?_toDigits false n h]
    simp [Numeral.value?, Decimal.natOfDigits_toDigits, hlt]
  | negSucc n =>
    have hle : n + 1 ≤ Word.signedEnd := by omega
    have hlt : n + 1 < Word.unsignedEnd := by omega
    have htext : (toString (Int.negSucc n)).toList = '-' :: Nat.toDigits 10 (n + 1) := by
      simp [toString, Int.repr]
    rw [htext, List.cons_append, readValue_minus, numberOf_eq hs, numeral?_toDigits true (n + 1) h]
    simp [Numeral.value?, Decimal.natOfDigits_toDigits, hlt, hle, Int.negSucc_eq]

end Json

/-- The text of a number in documents, read for itself, gives the number. -/
def Binary64.Rereads (x : Binary64) : Prop :=
  Json.readValue .value 1 1 (Decimal.write Decimal.document x).toList = some (.float x, [])

namespace Json

/-- A numeral starts with a digit. -/
theorem isDigit_of_numeral? {negative : Bool} {cs r : List Char} {n : Numeral}
    (h : numeral? negative cs = some (n, r)) : ∃ c t, cs = c :: t ∧ c.isDigit = true := by
  cases cs with
  | nil => cases h
  | cons c t =>
    refine ⟨c, t, rfl, ?_⟩
    by_contra hdigit
    have hspan : (Decimal.spanDigits (c :: t)).1 = [] := by
      simp [Decimal.spanDigits, List.span_eq_takeWhile_dropWhile, hdigit]
    simp [numeral?, hspan] at h

theorem readValue_skipBlanks (shape : Shape) (depth fuel : Nat) (cs : List Char) :
    readValue shape depth fuel (skipBlanks cs) = readValue shape depth fuel cs := by
  cases fuel with
  | zero => rfl
  | succ fuel => rw [readValue, readValue, skipBlanks, skipBlanks, List.dropWhile_idempotent]

/-- What is read as a float is a number with its sign or without one. -/
theorem numberOf_of_float {cs : List Char} {x : Binary64}
    (h : readValue .value 1 1 cs = some (.float x, [])) :
    (∃ t, skipBlanks cs = '-' :: t ∧ numberOf .value true t = some (.float x, [])) ∨
      ∃ c t, skipBlanks cs = c :: t ∧ c.isDigit = true ∧
        numberOf .value false (c :: t) = some (.float x, []) := by
  rw [readValue] at h
  split at h
  case h_1 => cases h
  case h_2 =>
    simp only [Option.bind_eq_bind, Option.bind_eq_some_iff] at h
    obtain ⟨_, _, hstr⟩ := h
    cases hstr
  case h_8 t heq => exact .inl ⟨t, heq, h⟩
  case h_9 t _ _ _ _ _ _ _ _ =>
    have hn := h
    rw [numberOf_eq rfl] at hn
    obtain ⟨n, hn, -⟩ := Option.bind_eq_some_iff.1 hn
    obtain ⟨c, t, hcons, hdigit⟩ := isDigit_of_numeral? hn
    exact .inr ⟨c, t, hcons, hdigit, hcons ▸ h⟩
  all_goals simp [Shape.counts, word] at h

/-- A number whose text gives it is read back. -/
theorem readValue_float {shape : Shape} (hs : shape.counts = true) (depth fuel : Nat)
    {x : Binary64} (hx : x.Rereads) {rest : List Char} (h : Ends rest) :
    readValue shape depth (fuel + 1) ((Decimal.write Decimal.document x).toList ++ rest) =
      some (.float x, rest) := by
  have hnumber {negative : Bool} {cs : List Char}
      (hread : numberOf .value negative cs = some (.float x, [])) :
      numberOf shape negative (cs ++ rest) = some (.float x, rest) := by
    rw [numberOf_eq rfl] at hread
    obtain ⟨⟨n, r⟩, hn, hv⟩ := Option.bind_eq_some_iff.1 hread
    obtain ⟨v, hv, heq⟩ := Option.map_eq_some_iff.1 hv
    cases heq
    rw [numberOf_eq hs, numeral?_append hn h, Option.bind_some, hv, Option.map_some]
  have hskip {cs t : List Char} {c : Char} (hcs : skipBlanks cs = c :: t) :
      skipBlanks (cs ++ rest) = c :: (t ++ rest) := by
    have hdrop : cs.dropWhile isBlank = c :: t := hcs
    rw [skipBlanks, List.dropWhile_append, hdrop]
    rfl
  rw [← readValue_skipBlanks]
  obtain ⟨t, hcs, hread⟩ | ⟨c, t, hcs, hdigit, hread⟩ := numberOf_of_float hx
  · rw [hskip hcs, readValue_minus]
    exact hnumber hread
  · rw [hskip hcs, readValue_digit hdigit]
    exact hnumber hread

end Json

end WorkflowEngine
