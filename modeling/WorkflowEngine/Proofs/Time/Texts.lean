import WorkflowEngine.Proofs.Text.Digits
import WorkflowEngine.Proofs.Time.Calendar
import WorkflowEngine.Time.Reading

/-!
# Instants read back

Reading the text of an instant gives the instant: the text in documents for every year of the
calendar, the text in tables for the years of four digits.
-/

namespace WorkflowEngine.Instant

open Text

/-- The year of an instant. -/
def year (t : Instant) : Int := t.fields.year

/-- The instants there are: within the years of the calendar, with a leap second only at the end of
a minute. -/
structure Valid (t : Instant) : Prop where
  year : -262143 ≤ t.year ∧ t.year ≤ 262142
  nanos : t.nanos < 1000000000 ∨ t.nanos < 2000000000 ∧ t.seconds % 60 = 59

/-! ## Fields -/

/-- The fields of an instant are those of a local time that exists. -/
theorem Valid.ofFields?_fields {t : Instant} (h : t.Valid) : ofFields? t.fields 0 = some t := by
  obtain ⟨day, hday⟩ : ∃ day, day = t.seconds.fdiv 86400 := ⟨_, rfl⟩
  obtain ⟨rest, hrest⟩ : ∃ rest, rest = (t.seconds - day * 86400).toNat := ⟨_, rfl⟩
  have hfdiv : t.seconds.fdiv 86400 = t.seconds / 86400 :=
    Int.fdiv_eq_ediv_of_nonneg _ (by omega)
  have hseconds : t.seconds = day * 86400 + rest ∧ rest < 86400 := by omega
  obtain ⟨hmonth, hmonthDay, hnumber⟩ := Calendar.date_sound day
  have hyear : -262143 ≤ (Calendar.date day).1 ∧ (Calendar.date day).1 ≤ 262142 :=
    hday ▸ h.year
  have hnanos := h.nanos
  obtain ⟨second, hsecond⟩ : ∃ s, s = if 1000000000 ≤ t.nanos then rest % 60 + 1 else rest % 60 :=
    ⟨_, rfl⟩
  obtain ⟨nanos, hnano⟩ : ∃ n, n = if 1000000000 ≤ t.nanos then t.nanos - 1000000000 else t.nanos :=
    ⟨_, rfl⟩
  have hfields : t.fields = ⟨(Calendar.date day).1, (Calendar.date day).2.1,
      (Calendar.date day).2.2, rest / 3600, rest / 60 % 60, second, nanos⟩ := by
    simp only [fields, ← hday, ← hrest, hsecond, hnano, decide_eq_true_eq]
  have hleap : second = 60 ↔ 1000000000 ≤ t.nanos := by
    split at hsecond <;> omega
  have htime : rest / 3600 ≤ 23 ∧ rest / 60 % 60 ≤ 59 ∧ second ≤ 60 := by
    split at hsecond <;> omega
  have hwhole : day * 86400 + Int.ofNat (3600 * (rest / 3600) + 60 * (rest / 60 % 60) +
      if second = 60 then 59 else second) - 0 = t.seconds := by
    simp only [Int.ofNat_eq_natCast, hleap]
    split at hsecond <;> rename_i hlong
    · simp only [if_pos hlong]
      omega
    · simp only [if_neg hlong]
      omega
  have hresult : (if second = 60 then nanos + 1000000000 else nanos) = t.nanos := by
    simp only [hleap]
    split at hnano <;> rename_i hlong
    · simp only [if_pos hlong]
      omega
    · simp only [if_neg hlong, hnano]
  simp only [ofFields?, hfields, hnumber, decide_eq_true_eq]
  rw [if_pos ⟨hmonth.1, hmonth.2, hmonthDay.1, hmonthDay.2, htime.1, htime.2.1, htime.2.2,
    hyear.1, hyear.2, by omega, by omega⟩, hwhole, ← hday, if_neg (by omega), hresult]

/-- A local time that exists is that of an instant, when its offset is a number of minutes. -/
theorem valid_of_ofFields? {f : Fields} {offset : Int} {t : Instant} (hnanos : f.nanos < 1000000000)
    (hoffset : offset % 60 = 0) (h : ofFields? f offset = some t) : t.Valid := by
  simp only [ofFields?, decide_eq_true_eq, Option.ite_none_right_eq_some,
    Option.ite_none_left_eq_some, Option.some.injEq] at h
  obtain ⟨_, hyear, rfl⟩ := h
  refine ⟨?_, ?_⟩
  · simp only [Instant.year, fields]
    omega
  · simp only
    split <;> simp only [Int.ofNat_eq_natCast] <;> omega

/-! ## Parts of a text -/

/-- Digits in front of what cannot continue them, or as many as may be taken, are read as their
number. -/
theorem digits?_append {least most : Nat} {ds rest : List Char}
    (hdigits : ∀ c ∈ ds, c.isDigit = true) (hne : ds ≠ []) (hleast : least ≤ ds.length)
    (hmost : ds.length ≤ most) (hrest : ds.length = most ∨ ∀ c ∈ rest.head?, c.isDigit = false) :
    digits? least most (ds ++ rest) = some (Decimal.natOfDigits ds, rest) := by
  have htaken : ((ds ++ rest).take most).takeWhile Char.isDigit = ds := by
    rw [List.take_append, List.take_of_length_le hmost, List.takeWhile_append_of_pos hdigits]
    have hnone : (rest.take (most - ds.length)).takeWhile Char.isDigit = [] := by
      obtain hfull | hhead := hrest
      · simp [hfull]
      · cases hcount : most - ds.length with
        | zero => rfl
        | succ k =>
          cases rest with
          | nil => rfl
          | cons c rest => simp [hhead c rfl]
    rw [hnone, List.append_nil]
  have hempty : ds.isEmpty = false := by simpa using hne
  simp only [digits?, htaken, hempty, List.drop_left]
  rw [if_neg (by simpa using hleast)]

theorem digits?_padded {least most width n : Nat} (rest : List Char) (hwidth : 0 < width)
    (hn : n < 10 ^ width) (hleast : least ≤ width) (hmost : width ≤ most)
    (hrest : width = most ∨ ∀ c ∈ rest.head?, c.isDigit = false) :
    digits? least most (padded width n ++ rest) = some (n, rest) := by
  have hlength := length_padded hwidth hn
  rw [digits?_append (fun _ => isDigit_of_mem_padded) (padded_ne_nil width n)
    (by omega) (by omega) (by rwa [hlength]), natOfDigits_padded]

theorem isBlank_eq_false_of_isDigit {c : Char} (h : c.isDigit = true) : isBlank c = false := by
  have hrange : 48 ≤ c.toNat ∧ c.toNat ≤ 57 := by
    simpa [Char.isDigit, UInt32.le_iff_toNat_le] using h
  simp only [isBlank, Bool.or_eq_false_iff, Bool.and_eq_false_iff, beq_eq_false_iff_ne,
    decide_eq_false_iff_not]
  omega

theorem trimLeft_cons {c : Char} (h : isBlank c = false) (cs : List Char) :
    trimLeft (c :: cs) = c :: cs := by
  simp [trimLeft, h]

theorem trimLeft_padded (width n : Nat) (rest : List Char) :
    trimLeft (padded width n ++ rest) = padded width n ++ rest := by
  cases hcons : padded width n with
  | nil => exact absurd hcons (padded_ne_nil width n)
  | cons c cs =>
    have hdigit : c.isDigit = true := isDigit_of_mem_padded (hcons ▸ List.mem_cons_self)
    exact trimLeft_cons (isBlank_eq_false_of_isDigit hdigit) _

/-- A field of two digits after its mark. -/
theorem markedField?_padded {mark : Char} (hmark : isBlank mark = false) {n : Nat} (hn : n < 100)
    (rest : List Char) : markedField? mark (mark :: (padded 2 n ++ rest)) = some (n, rest) := by
  simp [markedField?, char?, trimLeft_cons hmark, trimLeft_padded,
    digits?_padded rest Nat.zero_lt_two hn (Nat.le_succ 1) (Nat.le_refl 2) (.inl rfl)]

/-- A fraction of three, six or nine digits stands for their number of thousandths, millionths or
billionths. -/
theorem fraction?_padZeros {width n nanos : Nat} (hwidth : 0 < width ∧ width ≤ 9)
    (hn : n < 10 ^ width) (hnanos : nanos = n * 10 ^ (9 - width)) {rest : List Char}
    (hrest : ∀ c ∈ rest.head?, c.isDigit = false) :
    fraction? (("." ++ padZeros width n).toList ++ rest) = some (nanos, rest) := by
  have hdrop : rest.dropWhile Char.isDigit = rest := by
    cases rest with
    | nil => rfl
    | cons c rest => simp [hrest c rfl]
  have hlength : (padded width n ++ rest).length - rest.length = width := by
    rw [List.length_append, length_padded hwidth.1 hn]
    omega
  have htext : ("." ++ padZeros width n).toList ++ rest = '.' :: (padded width n ++ rest) := by
    simp
  rw [htext, hnanos]
  simp only [fraction?, digits?_padded rest hwidth.1 hn (by omega : 1 ≤ width) hwidth.2 (.inr hrest),
    Option.bind_eq_bind, Option.bind_some, Option.pure_def, hlength, hdrop, Nat.pow_eq]

theorem fraction?_fractionText {nanos : Nat} (h : nanos < 1000000000) {rest : List Char}
    (hrest : ∀ c ∈ rest.head?, c.isDigit = false ∧ c ≠ '.') :
    fraction? ((fractionText nanos).toList ++ rest) = some (nanos, rest) := by
  have hdigit : ∀ c ∈ rest.head?, c.isDigit = false := fun c hc => (hrest c hc).1
  unfold fractionText
  split
  · rename_i hzero
    subst hzero
    cases rest with
    | nil => rfl
    | cons c rest =>
      have hpoint : c ≠ '.' := (hrest c rfl).2
      simp [fraction?, hpoint]
  · split
    · exact fraction?_padZeros (by omega) (by omega) (by omega) hdigit
    · split
      · exact fraction?_padZeros (by omega) (by omega) (by omega) hdigit
      · exact fraction?_padZeros (by omega) (by omega) (by omega) hdigit

/-! ## Whole texts -/

/-- The characters of an instant's text up to its offset. -/
theorem toList_localText (t : Instant) : t.localText.toList =
    (Calendar.yearText t.fields.year).toList ++ '-' :: (padded 2 t.fields.month ++ '-' ::
      (padded 2 t.fields.day ++ 'T' :: (padded 2 t.fields.hour ++ ':' ::
        (padded 2 t.fields.minute ++ ':' :: (padded 2 t.fields.second ++
          (fractionText t.fields.nanos).toList))))) := by
  simp [localText, dateText]

/-- Where the fields of an instant lie. -/
structure Fields.Small (f : Fields) : Prop where
  month : f.month < 100
  day : f.day < 100
  hour : f.hour < 100
  minute : f.minute < 100
  second : f.second < 100
  nanos : f.nanos < 1000000000

theorem daysInMonth_le (year : Int) (month : Nat) : Calendar.daysInMonth year month ≤ 31 := by
  unfold Calendar.daysInMonth
  split
  · split <;> omega
  · split <;> omega

theorem Valid.small {t : Instant} (h : t.Valid) : t.fields.Small := by
  have hread := h.ofFields?_fields
  simp only [ofFields?, Option.ite_none_right_eq_some] at hread
  obtain ⟨⟨_, hmonth, _, hday, hhour, hminute, hsecond, _⟩, _⟩ := hread
  have hlast := daysInMonth_le t.fields.year t.fields.month
  have hnanos := h.nanos
  refine ⟨by omega, by omega, by omega, by omega, by omega, ?_⟩
  simp only [fields, decide_eq_true_eq]
  split <;> omega

/-- The digits of a year end before the dash, however many they are. -/
theorem digits?_year {least : Nat} (most n : Nat) (rest : List Char) (hleast : least ≤ 4)
    (hmost : (padded 4 n).length ≤ most) :
    digits? least most (padded 4 n ++ '-' :: rest) = some (n, '-' :: rest) := by
  have hlength := le_length_padded 4 n
  rw [digits?_append (fun _ => isDigit_of_mem_padded) (padded_ne_nil 4 n) (by omega) hmost
    (.inr (by simp)), natOfDigits_padded]

theorem year?_unsigned {c : Char} (hdigit : c.isDigit = true) (cs : List Char) :
    year? (c :: cs) = (digits? 1 4 (c :: cs)).map fun (n, r) => (Int.ofNat n, r) := by
  have hminus : c ≠ '-' := by
    rintro rfl
    cases hdigit
  have hplus : c ≠ '+' := by
    rintro rfl
    cases hdigit
  simp [year?, trimLeft_cons (isBlank_eq_false_of_isDigit hdigit), hminus, hplus]

theorem year?_minus (cs : List Char) :
    year? ('-' :: cs) = (digits? 1 cs.length cs).map fun (n, r) => (-Int.ofNat n, r) := by
  simp [year?, trimLeft_cons (by decide : isBlank '-' = false)]

theorem year?_plus (cs : List Char) :
    year? ('+' :: cs) = (digits? 1 cs.length cs).map fun (n, r) => (Int.ofNat n, r) := by
  simp [year?, trimLeft_cons (by decide : isBlank '+' = false)]

theorem year?_yearText (year : Int) (rest : List Char) :
    year? ((Calendar.yearText year).toList ++ '-' :: rest) = some (year, '-' :: rest) := by
  unfold Calendar.yearText
  split
  · have hlength : (padded 4 year.toNat).length = 4 := length_padded (by omega) (by omega)
    have hdigits := digits?_year 4 year.toNat rest (by omega : 1 ≤ 4)
      (Nat.le_of_eq hlength)
    rw [toList_padZeros]
    cases hcons : padded 4 year.toNat with
    | nil => exact absurd hcons (padded_ne_nil 4 year.toNat)
    | cons c cs =>
      have hdigit : c.isDigit = true := isDigit_of_mem_padded (hcons ▸ List.mem_cons_self)
      rw [hcons] at hdigits
      rw [List.cons_append] at hdigits ⊢
      rw [year?_unsigned hdigit, hdigits, Option.map_some]
      simp only [Int.ofNat_eq_natCast, Option.some.injEq, Prod.mk.injEq, and_true]
      omega
  · have hdigits := digits?_year (padded 4 year.natAbs ++ '-' :: rest).length year.natAbs rest
      (by omega : 1 ≤ 4) (by simp)
    by_cases hneg : year < 0
    · have hread : year? ('-' :: (padded 4 year.natAbs ++ '-' :: rest)) = some (year, '-' :: rest) := by
        rw [year?_minus, hdigits, Option.map_some]
        simp only [Int.ofNat_eq_natCast, Option.some.injEq, Prod.mk.injEq, and_true]
        omega
      simpa [hneg] using hread
    · have hread : year? ('+' :: (padded 4 year.natAbs ++ '-' :: rest)) = some (year, '-' :: rest) := by
        rw [year?_plus, hdigits, Option.map_some]
        simp only [Int.ofNat_eq_natCast, Option.some.injEq, Prod.mk.injEq, and_true]
        omega
      simpa [hneg] using hread

theorem separator?_mark (rest : List Char) : separator? ('T' :: rest) = some rest := rfl

theorem char?_self (c : Char) (rest : List Char) : char? c (c :: rest) = some rest := by
  simp [char?]

/-- The text in documents reads back. -/
theorem ofText?_text {t : Instant} (h : t.Valid) : ofText? t.text = some t := by
  have hsmall := h.small
  have hdash : isBlank '-' = false := by decide
  have hcolon : isBlank ':' = false := by decide
  have hhour : ∀ rest, digits? 1 2 (padded 2 t.fields.hour ++ rest) = some (t.fields.hour, rest) :=
    fun rest => digits?_padded rest Nat.zero_lt_two hsmall.hour (Nat.le_succ 1) (Nat.le_refl 2) (.inl rfl)
  have hfraction : fraction? ((fractionText t.fields.nanos).toList ++ ['Z']) =
      some (t.fields.nanos, ['Z']) := fraction?_fractionText hsmall.nanos (by simp)
  have hoffset : relaxedOffset? (trimLeft ['Z']) = some (0, []) := rfl
  have hchars : t.text.toList = t.localText.toList ++ ['Z'] := by simp [text]
  simp only [ofText?, hchars, toList_localText, List.append_assoc, List.cons_append,
    year?_yearText, Option.bind_eq_bind, Option.bind_some, markedField?_padded hdash hsmall.month,
    markedField?_padded hdash hsmall.day, separator?_mark, trimLeft_padded, hhour,
    markedField?_padded hcolon hsmall.minute, markedField?_padded hcolon hsmall.second, hfraction,
    hoffset]
  exact h.ofFields?_fields

/-- The text in tables reads back when its year has four digits. -/
theorem ofRowText?_rowText {t : Instant} (h : t.Valid)
    (hyear : 0 ≤ t.fields.year ∧ t.fields.year ≤ 9999) :
    ofRowText? t.rowText = some t := by
  have hsmall := h.small
  have hyearText : (Calendar.yearText t.fields.year).toList = padded 4 t.fields.year.toNat := by
    rw [Calendar.yearText, if_pos hyear, toList_padZeros]
  have hyearDigits : ∀ rest, digits? 4 4 (padded 4 t.fields.year.toNat ++ '-' :: rest) =
      some (t.fields.year.toNat, '-' :: rest) := fun rest =>
    digits?_year _ _ rest (Nat.le_refl 4)
      (Nat.le_of_eq (length_padded (by omega) ((Int.toNat_lt hyear.1).2 (by omega))))
  have hpair : ∀ {n : Nat} (rest : List Char), n < 100 →
      digits? 2 2 (padded 2 n ++ rest) = some (n, rest) := fun rest hn =>
    digits?_padded rest Nat.zero_lt_two hn (Nat.le_refl 2) (Nat.le_refl 2) (.inl rfl)
  have hfraction : fraction? ((fractionText t.fields.nanos).toList ++ "+00:00".toList) =
      some (t.fields.nanos, "+00:00".toList) := fraction?_fractionText hsmall.nanos (by simp)
  have hoffset : offset? (char? ':') "+00:00".toList = some (0, []) := by decide
  have hchars : t.rowText.toList = t.localText.toList ++ "+00:00".toList := by simp [rowText]
  have hvalue : (t.fields.year.toNat : Int) = t.fields.year := Int.toNat_of_nonneg hyear.1
  simp only [ofRowText?, hchars, toList_localText, hyearText, List.append_assoc, List.cons_append,
    hyearDigits, Option.bind_eq_bind, Option.bind_some, char?_self, separator?_mark,
    hpair _ hsmall.month, hpair _ hsmall.day, hpair _ hsmall.hour, hpair _ hsmall.minute,
    hpair _ hsmall.second, hfraction, hoffset, hvalue]
  exact h.ofFields?_fields

/-! ## What a text can give -/

/-- A number read from digits has no more of them than were taken. -/
theorem digits?_lt {least most n : Nat} {cs rest : List Char}
    (h : digits? least most cs = some (n, rest)) :
    n < 10 ^ (cs.length - rest.length) ∧ cs.length - rest.length ≤ most := by
  simp only [digits?, Option.ite_none_left_eq_some, Option.some.injEq, Prod.mk.injEq] at h
  obtain ⟨_, rfl, rfl⟩ := h
  obtain ⟨ds, hds⟩ : ∃ ds, ds = (cs.take most).takeWhile Char.isDigit := ⟨_, rfl⟩
  have hdigits : ∀ c ∈ ds, c.isDigit = true := fun c hc =>
    List.all_eq_true.1 List.all_takeWhile c (hds ▸ hc)
  have hlength : ds.length ≤ (cs.take most).length := hds ▸ (List.takeWhile_prefix _).length_le
  rw [List.length_take] at hlength
  rw [← hds, List.length_drop, show cs.length - (cs.length - ds.length) = ds.length by omega]
  exact ⟨Decimal.natOfDigits_lt hdigits, by omega⟩

theorem fraction?_lt {cs rest : List Char} {nanos : Nat} (h : fraction? cs = some (nanos, rest)) :
    nanos < 1000000000 := by
  unfold fraction? at h
  split at h
  · rename_i cs
    simp only [Option.bind_eq_bind, Option.bind_eq_some_iff, Option.pure_def, Option.some.injEq,
      Prod.mk.injEq, Prod.exists] at h
    obtain ⟨n, after, hread, rfl, _⟩ := h
    obtain ⟨hn, hwidth⟩ := digits?_lt hread
    calc n * Nat.pow 10 (9 - (cs.length - after.length))
        < 10 ^ (cs.length - after.length) * 10 ^ (9 - (cs.length - after.length)) :=
          Nat.mul_lt_mul_of_pos_right hn (Nat.pow_pos (by omega))
      _ = 10 ^ 9 := by rw [← Nat.pow_add, Nat.add_sub_cancel' hwidth]
  · cases h
    omega

/-- An offset is a whole number of minutes. -/
theorem offset?_minutes {colon : List Char → Option (List Char)} {cs rest : List Char} {n : Int}
    (h : offset? colon cs = some (n, rest)) : n % 60 = 0 := by
  unfold offset? at h
  split at h
  · cases h
  · split at h
    · cases h
      rfl
    · split at h
      · simp only [Option.bind_eq_bind, Option.bind_eq_some_iff, Prod.exists,
          Option.ite_none_left_eq_some, Option.pure_def, Option.some.injEq, Prod.mk.injEq] at h
        obtain ⟨hours, _, _, _, _, minutes, _, _, _, rfl, _⟩ := h
        split <;> simp only [Int.ofNat_eq_natCast] <;> omega
      · cases h

theorem relaxedOffset?_minutes {cs rest : List Char} {n : Int}
    (h : relaxedOffset? cs = some (n, rest)) : n % 60 = 0 := by
  unfold relaxedOffset? at h
  split at h
  · cases h
    rfl
  · exact offset?_minutes h

/-- Every instant that is read is one there is. -/
theorem valid_of_ofText? {s : String} {t : Instant} (h : ofText? s = some t) : t.Valid := by
  simp only [ofText?, Option.bind_eq_bind, Option.bind_eq_some_iff, Prod.exists,
    Option.ite_none_right_eq_some] at h
  obtain ⟨_, _, _, _, _, _, _, _, _, _, _, _, _, _, _, _, _, _, _, _, _, _, hnanos, _, _, hoffset, _,
    ht⟩ := h
  exact valid_of_ofFields? (fraction?_lt hnanos) (relaxedOffset?_minutes hoffset) ht

end WorkflowEngine.Instant
