import Mathlib.Tactic.IntervalCases
import Mathlib.Tactic.Ring
import WorkflowEngine.Proofs.Time.Texts

/-!
# The order of instants

Of two dates the later one has the greater day number, and of two instants with years of four digits
the later one has the greater text in tables. So the order of the texts is that of the instants.
-/

namespace WorkflowEngine

namespace Calendar

/-- The year of a date, counted from March. -/
def marchYear (year : Int) (month : Nat) : Int := if month ≤ 2 then year - 1 else year

/-- The months of its year that are over, counted from March. -/
def marchMonth (month : Nat) : Int := Int.ofNat ((month + 9) % 12)

/-- The days before a year that starts in March. -/
def marchStart (year : Int) : Int := 365 * year + year / 4 - year / 100 + year / 400

theorem dayNumber_march (year : Int) (month day : Nat) : dayNumber year month day =
    marchStart (marchYear year month) + (153 * marchMonth month + 2) / 5 + day - 719469 := by
  obtain ⟨y, hy⟩ : ∃ y, y = marchYear year month := ⟨_, rfl⟩
  have hera : y.fdiv 400 = y / 400 := Int.fdiv_eq_ediv_of_nonneg _ (by omega)
  simp only [dayNumber, ← marchMonth.eq_def, ← marchYear.eq_def, ← hy, hera, marchStart]
  omega

/-- A year that starts in March has as many days as a day of it may be late. -/
theorem marchStart_succ (year : Int) : marchStart (year + 1) - marchStart year =
    if isLeapYear (year + 1) then 366 else 365 := by
  simp only [isLeapYear, marchStart, Int.fmod_eq_emod_of_nonneg _ (by omega : (0 : Int) ≤ 4),
    Int.fmod_eq_emod_of_nonneg _ (by omega : (0 : Int) ≤ 100),
    Int.fmod_eq_emod_of_nonneg _ (by omega : (0 : Int) ≤ 400), Bool.and_eq_true, Bool.or_eq_true,
    beq_iff_eq, bne_iff_ne]
  split <;> omega

theorem marchStart_le {year year' : Int} (h : year ≤ year') :
    marchStart year ≤ marchStart year' := by
  simp only [marchStart]
  omega

/-- A day of a month lies before the next month, and before the next year. -/
theorem day_of_month {year : Int} {month day : Nat} (hmonth : 1 ≤ month ∧ month ≤ 12)
    (hday : day ≤ daysInMonth year month) :
    (marchMonth month < 11 →
      (153 * marchMonth month + 2) / 5 + day ≤ (153 * (marchMonth month + 1) + 2) / 5) ∧
    (153 * marchMonth month + 2) / 5 + day ≤
      marchStart (marchYear year month + 1) - marchStart (marchYear year month) := by
  rw [marchStart_succ]
  obtain ⟨hleast, hgreatest⟩ := hmonth
  by_cases hfebruary : month = 2
  · subst hfebruary
    have hyear : marchYear year 2 + 1 = year := by simp [marchYear]
    have hmarch : marchMonth 2 = 11 := rfl
    rw [hyear, hmarch]
    simp only [daysInMonth, if_true] at hday
    split at hday <;> rename_i hleap <;> simp only [hleap] <;> simp <;> omega
  · have hlength : day ≤ if month = 4 ∨ month = 6 ∨ month = 9 ∨ month = 11 then 30 else 31 := by
      simpa [daysInMonth, hfebruary] using hday
    have hyear : 365 ≤ if isLeapYear (marchYear year month + 1) then (366 : Int) else 365 := by
      split <;> omega
    interval_cases month <;> simp [marchMonth] at * <;> omega

/-- Whether a date is before another one. -/
def Before (year : Int) (month day : Nat) (year' : Int) (month' day' : Nat) : Prop :=
  year < year' ∨ year = year' ∧ (month < month' ∨ month = month' ∧ day < day')

theorem dayNumber_lt {year year' : Int} {month day month' day' : Nat}
    (hmonth : 1 ≤ month ∧ month ≤ 12) (hday : day ≤ daysInMonth year month)
    (hmonth' : 1 ≤ month' ∧ month' ≤ 12) (hday' : 1 ≤ day')
    (h : Before year month day year' month' day') :
    dayNumber year month day < dayNumber year' month' day' := by
  obtain ⟨hnext, hlast⟩ := day_of_month hmonth hday
  have hmarch : marchYear year month < marchYear year' month' ∨
      marchYear year month = marchYear year' month' ∧
        (marchMonth month < marchMonth month' ∨ month = month' ∧ day < day') := by
    simp only [Before, marchYear, marchMonth, Int.ofNat_eq_natCast] at h ⊢
    split <;> split <;> omega
  have hbounds : 0 ≤ marchMonth month ∧ marchMonth month ≤ 11 ∧
      0 ≤ marchMonth month' ∧ marchMonth month' ≤ 11 := by
    simp only [marchMonth, Int.ofNat_eq_natCast]
    omega
  rw [dayNumber_march, dayNumber_march]
  rcases hmarch with hyear | ⟨hyear, hrest⟩
  · have hstart := marchStart_le (by omega : marchYear year month + 1 ≤ marchYear year' month')
    omega
  · rw [← hyear]
    rcases hrest with hmonths | ⟨rfl, hdays⟩
    · have hfits := hnext (by omega)
      omega
    · omega

/-- The later of two days has the later date. -/
theorem before_date {day day' : Int} (h : day < day') :
    Before (date day).1 (date day).2.1 (date day).2.2 (date day').1 (date day').2.1 (date day').2.2 := by
  obtain ⟨hmonth, ⟨hleast, hlast⟩, hnumber⟩ := date_sound day
  obtain ⟨hmonth', ⟨hleast', hlast'⟩, hnumber'⟩ := date_sound day'
  by_contra hnot
  have hother : (date day).1 = (date day').1 ∧ (date day).2.1 = (date day').2.1 ∧
      (date day).2.2 = (date day').2.2 ∨ Before (date day').1 (date day').2.1 (date day').2.2
        (date day).1 (date day).2.1 (date day).2.2 := by
    simp only [Before] at hnot ⊢
    omega
  rcases hother with ⟨hyear, hmonths, hdays⟩ | hbefore
  · rw [hyear, hmonths, hdays, hnumber'] at hnumber
    omega
  · have hlt := dayNumber_lt hmonth' hlast' hmonth hleast hbefore
    omega

end Calendar

namespace Instant

/-- Whether the fields of an instant are before those of another one. -/
def Fields.Before (f g : Fields) : Prop :=
  Calendar.Before f.year f.month f.day g.year g.month g.day ∨
    f.year = g.year ∧ f.month = g.month ∧ f.day = g.day ∧
      (f.hour < g.hour ∨ f.hour = g.hour ∧
        (f.minute < g.minute ∨ f.minute = g.minute ∧
          (f.second < g.second ∨ f.second = g.second ∧ f.nanos < g.nanos)))

theorem le_eq_false {t u : Instant} : u.le t = false ↔
    t.seconds < u.seconds ∨ t.seconds = u.seconds ∧ t.nanos < u.nanos := by
  simp only [le, Bool.or_eq_false_iff, Bool.and_eq_false_iff, decide_eq_false_iff_not,
    beq_eq_false_iff_ne]
  omega

/-- The earlier of two instants has the earlier fields. -/
theorem before_fields {t u : Instant} (ht : t.Valid) (hu : u.Valid) (h : u.le t = false) :
    t.fields.Before u.fields := by
  have hlt := le_eq_false.1 h
  have hleap := ht.nanos
  have hleap' := hu.nanos
  have hday : t.seconds.fdiv 86400 = t.seconds / 86400 ∧ u.seconds.fdiv 86400 = u.seconds / 86400 :=
    ⟨Int.fdiv_eq_ediv_of_nonneg _ (by omega), Int.fdiv_eq_ediv_of_nonneg _ (by omega)⟩
  simp only [Fields.Before, fields, hday]
  by_cases hdays : t.seconds / 86400 < u.seconds / 86400
  · exact .inl (Calendar.before_date hdays)
  · have hsame : t.seconds / 86400 = u.seconds / 86400 := by omega
    refine .inr ?_
    rw [hsame]
    refine ⟨rfl, rfl, rfl, ?_⟩
    simp only [decide_eq_true_eq]
    split <;> split <;> omega

end Instant

/-! ## Texts -/

namespace Decimal

private theorem foldl_digits (cs : List Char) (n : Nat) :
    cs.foldl (fun n c => 10 * n + digitValue c) n = n * 10 ^ cs.length + natOfDigits cs := by
  induction cs generalizing n with
  | nil => simp [natOfDigits]
  | cons d cs ih =>
    simp only [natOfDigits, List.foldl_cons, List.length_cons] at ih ⊢
    rw [ih, ih (10 * 0 + digitValue d), Nat.pow_succ]
    ring

theorem natOfDigits_cons (c : Char) (cs : List Char) :
    natOfDigits (c :: cs) = digitValue c * 10 ^ cs.length + natOfDigits cs := by
  have hfold := foldl_digits cs (10 * 0 + digitValue c)
  simpa [natOfDigits] using hfold

private theorem toNat_of_isDigit {c : Char} (h : c.isDigit = true) :
    c.toNat = 48 + digitValue c ∧ digitValue c < 10 := by
  have hrange : 48 ≤ c.toNat ∧ c.toNat ≤ 57 := by
    simpa [Char.isDigit, UInt32.le_iff_toNat_le] using h
  have hzero : '0'.toNat = 48 := rfl
  rw [digitValue]
  omega

private theorem lt_of_digitValue {c d : Char} (hc : c.isDigit = true) (hd : d.isDigit = true)
    (h : digitValue c < digitValue d) : c < d := by
  have hc' := toNat_of_isDigit hc
  have hd' := toNat_of_isDigit hd
  exact Char.lt_def.2 (UInt32.lt_iff_toNat_lt.2 (by simp only [Char.toNat] at hc' hd'; omega))

private theorem eq_of_digitValue {c d : Char} (hc : c.isDigit = true) (hd : d.isDigit = true)
    (h : digitValue c = digitValue d) : c = d := by
  have hc' := toNat_of_isDigit hc
  have hd' := toNat_of_isDigit hd
  exact Char.toNat_inj.1 (by omega)

/-- Of digits of one width, those of the smaller number come first; of the same number, what comes
after them decides. -/
theorem append_lt_append {ds es s t : List Char} (hds : ∀ c ∈ ds, c.isDigit = true)
    (hes : ∀ c ∈ es, c.isDigit = true) (hlength : ds.length = es.length)
    (h : natOfDigits ds < natOfDigits es ∨ natOfDigits ds = natOfDigits es ∧ s < t) :
    ds ++ s < es ++ t := by
  induction ds generalizing es with
  | nil =>
    obtain rfl : es = [] := by simpa using hlength.symm
    simpa using h
  | cons c ds ih =>
    obtain _ | ⟨d, es⟩ := es
    · cases hlength
    rw [List.forall_mem_cons] at hds hes
    have hsame : ds.length = es.length := by simpa using hlength
    have hfirst := natOfDigits_lt hds.2
    have hsecond := natOfDigits_lt hes.2
    rw [natOfDigits_cons, natOfDigits_cons, hsame] at h
    rw [hsame] at hfirst
    rw [List.cons_append, List.cons_append, List.cons_lt_cons_iff]
    rcases Nat.lt_trichotomy (digitValue c) (digitValue d) with hlt | heq | hgt
    · exact .inl (lt_of_digitValue hds.1 hes.1 hlt)
    · refine .inr ⟨eq_of_digitValue hds.1 hes.1 heq, ih hds.2 hes.2 hsame ?_⟩
      rw [heq] at h
      exact h.imp Nat.lt_of_add_lt_add_left fun h => ⟨Nat.add_left_cancel h.1, h.2⟩
    · have hmore : (digitValue d + 1) * 10 ^ es.length ≤ digitValue c * 10 ^ es.length :=
        Nat.mul_le_mul_right _ hgt
      rw [Nat.add_mul, Nat.one_mul] at hmore
      omega

/-- Of the digits of two fractions, those of the smaller one come first when a sign follows. -/
theorem fraction_lt_fraction {ds es s t : List Char} {width : Nat}
    (hds : ∀ c ∈ ds, c.isDigit = true) (hes : ∀ c ∈ es, c.isDigit = true)
    (hwidth : ds.length ≤ width ∧ es.length ≤ width)
    (h : natOfDigits ds * 10 ^ (width - ds.length) < natOfDigits es * 10 ^ (width - es.length)) :
    ds ++ '+' :: s < es ++ '+' :: t := by
  induction ds generalizing es width with
  | nil =>
    obtain _ | ⟨d, es⟩ := es
    · simp [natOfDigits] at h
    have hdigit := toNat_of_isDigit (hes d (by simp))
    have hsign : '+' < d :=
      Char.lt_def.2 (UInt32.lt_iff_toNat_lt.2 (by
        have hplus : '+'.val.toNat = 43 := rfl
        simp only [Char.toNat] at hdigit
        omega))
    exact List.cons_lt_cons_iff.2 (.inl hsign)
  | cons c ds ih =>
    obtain _ | ⟨d, es⟩ := es
    · simp [natOfDigits] at h
    obtain ⟨width, rfl⟩ : ∃ k, width = k + 1 := ⟨width - 1, by simp at hwidth; omega⟩
    rw [List.forall_mem_cons] at hds hes
    simp only [List.length_cons, Nat.add_le_add_iff_right, Nat.add_sub_add_right] at hwidth h
    have hscale {cs : List Char} (hcs : cs.length ≤ width) (c : Char) :
        natOfDigits (c :: cs) * 10 ^ (width - cs.length) =
          digitValue c * 10 ^ width + natOfDigits cs * 10 ^ (width - cs.length) := by
      rw [natOfDigits_cons, Nat.add_mul, Nat.mul_assoc, ← Nat.pow_add, Nat.add_sub_cancel' hcs]
    have hbound {cs : List Char} (hcs : ∀ c ∈ cs, c.isDigit = true) (hlength : cs.length ≤ width) :
        natOfDigits cs * 10 ^ (width - cs.length) < 10 ^ width := by
      have hlt := Nat.mul_lt_mul_of_pos_right (natOfDigits_lt hcs)
        (Nat.pow_pos (by omega : 0 < 10) : 0 < 10 ^ (width - cs.length))
      rwa [← Nat.pow_add, Nat.add_sub_cancel' hlength] at hlt
    have hfirst := hbound hds.2 hwidth.1
    have hsecond := hbound hes.2 hwidth.2
    rw [hscale hwidth.1, hscale hwidth.2] at h
    rw [List.cons_append, List.cons_append, List.cons_lt_cons_iff]
    rcases Nat.lt_trichotomy (digitValue c) (digitValue d) with hlt | heq | hgt
    · exact .inl (lt_of_digitValue hds.1 hes.1 hlt)
    · refine .inr ⟨eq_of_digitValue hds.1 hes.1 heq, ih hds.2 hes.2 hwidth ?_⟩
      rw [heq] at h
      omega
    · have hmore : (digitValue d + 1) * 10 ^ width ≤ digitValue c * 10 ^ width :=
        Nat.mul_le_mul_right _ hgt
      rw [Nat.add_mul, Nat.one_mul] at hmore
      omega

end Decimal

namespace Instant

open Text Decimal

/-- The digits of a fraction's text, which hold its value. -/
theorem exists_fractionText {nanos : Nat} (h : nanos < 1000000000) :
    nanos = 0 ∧ fractionText nanos = "" ∨ nanos ≠ 0 ∧ ∃ ds : List Char,
      (fractionText nanos).toList = '.' :: ds ∧ (∀ c ∈ ds, c.isDigit = true) ∧ ds.length ≤ 9 ∧
        natOfDigits ds * 10 ^ (9 - ds.length) = nanos := by
  have hdigits {width n : Nat} (hwidth : 0 < width ∧ width ≤ 9) (hn : n < 10 ^ width)
      (hnanos : n * 10 ^ (9 - width) = nanos) : ∃ ds : List Char,
      ("." ++ padZeros width n).toList = '.' :: ds ∧ (∀ c ∈ ds, c.isDigit = true) ∧
        ds.length ≤ 9 ∧ natOfDigits ds * 10 ^ (9 - ds.length) = nanos := by
    have hlength := length_padded hwidth.1 hn
    refine ⟨padded width n, by simp, fun c => isDigit_of_mem_padded, by omega, ?_⟩
    rw [hlength, natOfDigits_padded, hnanos]
  unfold fractionText
  split
  · exact .inl ⟨‹_›, rfl⟩
  · refine .inr ⟨‹_›, ?_⟩
    split
    · exact hdigits (by omega) (by omega) (by omega)
    · split
      · exact hdigits (by omega) (by omega) (by omega)
      · exact hdigits (by omega) (by omega) (by omega)

theorem fractionText_lt {m n : Nat} (h : m < n) (hn : n < 1000000000) :
    (fractionText m).toList ++ "+00:00".toList < (fractionText n).toList ++ "+00:00".toList := by
  have hoffset : "+00:00".toList = '+' :: "00:00".toList := rfl
  rw [hoffset]
  obtain ⟨hzero, -⟩ | ⟨-, es, hes, hdigits', hlength', hvalue'⟩ := exists_fractionText hn
  · omega
  rw [hes]
  obtain ⟨-, hnone⟩ | ⟨-, ds, hds, hdigits, hlength, hvalue⟩ := exists_fractionText (Nat.lt_trans h hn)
  · rw [hnone]
    exact List.cons_lt_cons_iff.2 (.inl (by decide))
  · rw [hds]
    exact List.cons_lt_cons_iff.2 (.inr ⟨rfl, fraction_lt_fraction hdigits hdigits'
      ⟨hlength, hlength'⟩ (by omega)⟩)

theorem padded_lt {width m n : Nat} (hwidth : 0 < width) (hm : m < 10 ^ width) (hn : n < 10 ^ width)
    {s t : List Char} (h : m < n ∨ m = n ∧ s < t) : padded width m ++ s < padded width n ++ t := by
  refine append_lt_append (fun _ => isDigit_of_mem_padded) (fun _ => isDigit_of_mem_padded) ?_ ?_
  · rw [length_padded hwidth hm, length_padded hwidth hn]
  · rwa [natOfDigits_padded, natOfDigits_padded]

/-- Of two instants the earlier one has the smaller text in tables. -/
theorem rowText_lt {t u : Instant} (ht : t.Valid) (hu : u.Valid)
    (hyear : 0 ≤ t.year ∧ t.year ≤ 9999) (hyear' : 0 ≤ u.year ∧ u.year ≤ 9999)
    (h : u.le t = false) : t.rowText < u.rowText := by
  have hsmall := ht.small
  have hsmall' := hu.small
  have hfraction := fun h => fractionText_lt (m := t.fields.nanos) (n := u.fields.nanos) h hsmall'.nanos
  have hbefore := before_fields ht hu h
  have hchars (t : Instant) (hyear : 0 ≤ t.year ∧ t.year ≤ 9999) : t.rowText.toList =
      padded 4 t.fields.year.toNat ++ '-' :: (padded 2 t.fields.month ++ '-' ::
      (padded 2 t.fields.day ++ 'T' :: (padded 2 t.fields.hour ++ ':' ::
        (padded 2 t.fields.minute ++ ':' :: (padded 2 t.fields.second ++
          ((fractionText t.fields.nanos).toList ++ "+00:00".toList)))))) := by
    have hyearText : Calendar.yearText t.fields.year = padZeros 4 t.fields.year.toNat := if_pos hyear
    simp [rowText, toList_localText, hyearText]
  have hwidths (t : Instant) (h : t.Valid) (hyear : 0 ≤ t.year ∧ t.year ≤ 9999) :
      t.fields.year.toNat < 10 ^ 4 ∧ t.fields.month < 10 ^ 2 ∧ t.fields.day < 10 ^ 2 ∧
        t.fields.hour < 10 ^ 2 ∧ t.fields.minute < 10 ^ 2 ∧ t.fields.second < 10 ^ 2 := by
    have hsmall := h.small
    simp only [year] at hyear
    obtain ⟨hmonth, hday, hhour, hminute, hsecond, -⟩ := hsmall
    omega
  obtain ⟨y, mo, d, ho, mi, se⟩ := hwidths t ht hyear
  obtain ⟨y', mo', d', ho', mi', se'⟩ := hwidths u hu hyear'
  have hyears : t.fields.year < u.fields.year ↔ t.fields.year.toNat < u.fields.year.toNat := by
    simp only [year] at hyear hyear'
    omega
  have hfield {width m n : Nat} (mark : Char) {cs ds : List Char} (hwidth : 0 < width)
      (hm : m < 10 ^ width) (hn : n < 10 ^ width) (h : m < n ∨ m = n ∧ cs < ds) :
      padded width m ++ mark :: cs < padded width n ++ mark :: ds :=
    padded_lt hwidth hm hn (h.imp_right fun h =>
      ⟨h.1, List.cons_lt_cons_iff.2 (.inr ⟨rfl, h.2⟩)⟩)
  have hseconds : t.fields.second < u.fields.second ∨
      t.fields.second = u.fields.second ∧ t.fields.nanos < u.fields.nanos →
        padded 2 t.fields.second ++ ((fractionText t.fields.nanos).toList ++ "+00:00".toList) <
          padded 2 u.fields.second ++ ((fractionText u.fields.nanos).toList ++ "+00:00".toList) :=
    fun h => padded_lt (by omega) se se' (h.imp_right fun h => ⟨h.1, hfraction h.2⟩)
  show t.rowText.toList < u.rowText.toList
  rw [hchars t hyear, hchars u hyear']
  have htwo : 0 < 2 := Nat.zero_lt_two
  obtain (hyears' | ⟨hyear', hmonths | ⟨hmonth, hdays⟩⟩) | ⟨hyear', hmonth, hday, hclock⟩ := hbefore
  · exact hfield '-' (by omega) y y' (.inl (hyears.1 hyears'))
  · exact hfield '-' (by omega) y y' (.inr ⟨by rw [hyear'], hfield '-' htwo mo mo' (.inl hmonths)⟩)
  · exact hfield '-' (by omega) y y' (.inr ⟨by rw [hyear'], hfield '-' htwo mo mo' (.inr ⟨hmonth,
      hfield 'T' htwo d d' (.inl hdays)⟩)⟩)
  · refine hfield '-' (by omega) y y' (.inr ⟨by rw [hyear'], hfield '-' htwo mo mo' (.inr ⟨hmonth,
      hfield 'T' htwo d d' (.inr ⟨hday, hfield ':' htwo ho ho' ?_⟩)⟩)⟩)
    exact hclock.imp_right fun hhour => ⟨hhour.1, hfield ':' htwo mi mi'
      (hhour.2.imp_right fun hminute => ⟨hminute.1, hseconds hminute.2⟩)⟩

/-- The texts of instants in tables are in the order of the instants. -/
theorem rowText_le {t u : Instant} (ht : t.Valid) (hu : u.Valid)
    (hyear : 0 ≤ t.year ∧ t.year ≤ 9999) (hyear' : 0 ≤ u.year ∧ u.year ≤ 9999) :
    decide (t.rowText ≤ u.rowText) = t.le u := by
  cases h : t.le u with
  | false =>
    have hlt := rowText_lt hu ht hyear' hyear h
    exact decide_eq_false (String.not_le.2 hlt)
  | true =>
    rw [decide_eq_true_eq, ← String.not_lt]
    intro hlt
    cases hother : u.le t with
    | false => exact String.lt_asymm hlt (rowText_lt ht hu hyear hyear' hother)
    | true =>
      have hsame : t = u := by
        simp only [le, Bool.or_eq_true, Bool.and_eq_true, decide_eq_true_eq, beq_iff_eq] at h hother
        cases t
        cases u
        simp only [mk.injEq]
        simp only at h hother
        omega
      rw [hsame] at hlt
      exact String.lt_irrefl _ hlt

end Instant

end WorkflowEngine
