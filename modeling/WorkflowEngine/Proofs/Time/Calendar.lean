import WorkflowEngine.Time.Instant

/-!
# The calendar

Every day has a date that exists, and the day number of a day's date is the day.

An era has four centuries of 36524 days and a day at its end, a century twenty-five spans of four
years of 1461 days less a day at its end, and years are counted from March.
-/

namespace WorkflowEngine.Calendar

/-- A day of an era: the century, the span of four years, the year in it and the day of the year. -/
structure Place where
  century : Int
  span : Int
  year : Int
  day : Int

namespace Place

/-- The parts are in range. A year has a day numbered 365 only at the end of a span, and at the end
of a century only when the era ends too. -/
structure Sound (p : Place) : Prop where
  century : 0 ≤ p.century ∧ p.century ≤ 3
  span : 0 ≤ p.span ∧ p.span ≤ 24
  year : 0 ≤ p.year ∧ p.year ≤ 3
  day : 0 ≤ p.day ∧ p.day ≤ 365
  leap : p.day = 365 → p.year = 3 ∧ (p.span = 24 → p.century = 3)

def dayOfEra (p : Place) : Int := 36524 * p.century + 1461 * p.span + 365 * p.year + p.day

def yearOfEra (p : Place) : Int := 100 * p.century + 4 * p.span + p.year

theorem Sound.yearOfEra_bounds {p : Place} (h : p.Sound) :
    0 ≤ p.yearOfEra ∧ p.yearOfEra ≤ 399 := by
  have hcentury := h.century
  have hspan := h.span
  have hyear := h.year
  simp only [yearOfEra]
  omega

/-- The days before a year of an era. -/
theorem Sound.yearStart {p : Place} (h : p.Sound) :
    365 * p.yearOfEra + p.yearOfEra / 4 - p.yearOfEra / 100 + p.day = p.dayOfEra := by
  have hspan := h.span
  have hyear := h.year
  have hquarter : p.yearOfEra / 4 = 25 * p.century + p.span := by
    simp only [yearOfEra]
    omega
  have hcentury : p.yearOfEra / 100 = p.century := by
    simp only [yearOfEra]
    omega
  rw [hquarter, hcentury]
  simp only [yearOfEra, dayOfEra]
  omega

/-- The year of a day: the day's number less the leap days before it, over 365. -/
theorem Sound.yearOfEra_eq {p : Place} (h : p.Sound) :
    (p.dayOfEra - p.dayOfEra / 1460 + p.dayOfEra / 36524 - p.dayOfEra / 146096) / 365 =
      p.yearOfEra := by
  obtain ⟨hcentury, hspan, hyear, hday, hleap⟩ := h
  obtain ⟨n, hn⟩ : ∃ n, n = p.dayOfEra := ⟨_, rfl⟩
  simp only [← hn]
  simp only [dayOfEra, yearOfEra] at *
  by_cases hend : n = 146096
  · subst hend
    omega
  · -- Short of the last day of the era, the centuries and the era's end count as they should.
    have hcenturies : n / 36524 = p.century := by omega
    have hera : n / 146096 = 0 := by omega
    have hspans : n / 1460 = 25 * p.century + p.span ∨
        n / 1460 = 25 * p.century + p.span + 1 := by omega
    rw [hcenturies, hera]
    rcases hspans with hspans | hspans
    · have hlast : p.day ≠ 365 := by omega
      rw [hspans]
      omega
    · have hfirst : p.day ≠ 0 := by omega
      rw [hspans]
      omega

end Place

/-- Every day of an era has its place. -/
theorem exists_place {dayOfEra : Int} (h : 0 ≤ dayOfEra ∧ dayOfEra ≤ 146096) :
    ∃ p : Place, p.Sound ∧ p.dayOfEra = dayOfEra := by
  obtain ⟨century, hcentury⟩ : ∃ c, c = min (dayOfEra / 36524) 3 := ⟨_, rfl⟩
  obtain ⟨rest, hrest⟩ : ∃ r, r = dayOfEra - 36524 * century := ⟨_, rfl⟩
  obtain ⟨span, hspan⟩ : ∃ s, s = rest / 1461 := ⟨_, rfl⟩
  obtain ⟨year, hyear⟩ : ∃ y, y = min ((rest - 1461 * span) / 365) 3 := ⟨_, rfl⟩
  have hyear' : 0 ≤ year ∧ year ≤ 3 := by omega
  have hspan' : 0 ≤ span ∧ span ≤ 24 := by omega
  refine ⟨⟨century, span, year, rest - 1461 * span - 365 * year⟩,
    ⟨?_, hspan', hyear', ?_, ?_⟩, ?_⟩ <;> simp only [Place.dayOfEra] <;> omega

/-- Every day is a day of an era. -/
theorem exists_era (day : Int) :
    ∃ (era : Int) (p : Place), p.Sound ∧ day = era * 146097 + p.dayOfEra - 719468 := by
  have hday : 0 ≤ (day + 719468) % 146097 ∧ (day + 719468) % 146097 ≤ 146096 := by omega
  obtain ⟨p, hp, hplace⟩ := exists_place hday
  exact ⟨(day + 719468) / 146097, p, hp, by omega⟩

/-! ## Dates -/

section Dates

variable {era : Int} {p : Place} {m d : Int}

/-- The date of a day of an era, with its month counted from March. -/
theorem date_eq (h : p.Sound) (hm : m = (5 * p.day + 2) / 153)
    (hd : d = p.day - (153 * m + 2) / 5 + 1) :
    date (era * 146097 + p.dayOfEra - 719468) =
      (if m < 10 then p.yearOfEra + era * 400 else p.yearOfEra + era * 400 + 1,
        (if m < 10 then m + 3 else m - 9).toNat, d.toNat) := by
  have hyear := h.yearOfEra_bounds
  have hstart := h.yearStart
  have hday := h.day
  have hera : (era * 146097 + p.dayOfEra - 719468 + 719468).fdiv 146097 = era := by
    rw [Int.fdiv_eq_ediv_of_nonneg _ (by omega)]
    omega
  have hplace : era * 146097 + p.dayOfEra - 719468 + 719468 - era * 146097 = p.dayOfEra := by omega
  have hdayOfYear :
      p.dayOfEra - (365 * p.yearOfEra + p.yearOfEra / 4 - p.yearOfEra / 100) = p.day := by omega
  simp only [date, hera, hplace, h.yearOfEra_eq, hdayOfYear, ← hm, ← hd]
  by_cases hmonth : m < 10
  · simp only [if_pos hmonth, Prod.mk.injEq, and_true]
    omega
  · simp only [if_neg hmonth, Prod.mk.injEq, and_true]
    omega

/-- A month from March on lies in the year of its March, one before it in the next. -/
theorem dayNumber_eq (h : p.Sound) (hm : 0 ≤ m ∧ m ≤ 11)
    (hd : d = p.day - (153 * m + 2) / 5 + 1) (hpos : 1 ≤ d) :
    dayNumber (if m < 10 then p.yearOfEra + era * 400 else p.yearOfEra + era * 400 + 1)
      (if m < 10 then m + 3 else m - 9).toNat d.toNat =
      era * 146097 + p.dayOfEra - 719468 := by
  have hyear := h.yearOfEra_bounds
  have hstart := h.yearStart
  have hera : (p.yearOfEra + era * 400).fdiv 400 = era := by
    rw [Int.fdiv_eq_ediv_of_nonneg _ (by omega)]
    omega
  have hplace : p.yearOfEra + era * 400 - era * 400 = p.yearOfEra := by omega
  by_cases hmonth : m < 10
  · have hlate : ¬ (m + 3).toNat ≤ 2 := by omega
    have hcount : Int.ofNat (((m + 3).toNat + 9) % 12) = m := by
      simp only [Int.ofNat_eq_natCast]
      omega
    simp only [dayNumber, if_pos hmonth, if_neg hlate, hera, hplace, hcount]
    omega
  · have hearly : (m - 9).toNat ≤ 2 := by omega
    have hcount : Int.ofNat (((m - 9).toNat + 9) % 12) = m := by
      simp only [Int.ofNat_eq_natCast]
      omega
    have hbefore : p.yearOfEra + era * 400 + 1 - 1 = p.yearOfEra + era * 400 := by omega
    simp only [dayNumber, if_neg hmonth, if_pos hearly, hbefore, hera, hplace, hcount]
    omega

/-- The last day of February is the leap day in a leap year only. -/
theorem isLeapYear_of_lastDay (h : p.Sound) (hday : p.day = 365) :
    isLeapYear (p.yearOfEra + era * 400 + 1) = true := by
  obtain ⟨hyear, hcentury⟩ := h.leap hday
  have hbounds := h.century
  have hspan := h.span
  simp only [isLeapYear, Int.fmod_eq_emod_of_nonneg _ (by omega : (0 : Int) ≤ 4),
    Int.fmod_eq_emod_of_nonneg _ (by omega : (0 : Int) ≤ 100),
    Int.fmod_eq_emod_of_nonneg _ (by omega : (0 : Int) ≤ 400), Bool.and_eq_true, Bool.or_eq_true,
    beq_iff_eq, bne_iff_ne, Place.yearOfEra]
  omega

end Dates

/-- A day's date has a month of the year and a day of the month, and its day number is the day. -/
theorem date_sound (day : Int) :
    (1 ≤ (date day).2.1 ∧ (date day).2.1 ≤ 12) ∧
      (1 ≤ (date day).2.2 ∧ (date day).2.2 ≤ daysInMonth (date day).1 (date day).2.1) ∧
      dayNumber (date day).1 (date day).2.1 (date day).2.2 = day := by
  obtain ⟨era, p, hp, rfl⟩ := exists_era day
  obtain ⟨m, hm⟩ : ∃ m, m = (5 * p.day + 2) / 153 := ⟨_, rfl⟩
  obtain ⟨d, hd⟩ : ∃ d, d = p.day - (153 * m + 2) / 5 + 1 := ⟨_, rfl⟩
  have hday := hp.day
  have hbounds : 0 ≤ m ∧ m ≤ 11 := by omega
  have hpos : 1 ≤ d := by omega
  rw [date_eq hp hm hd]
  refine ⟨?_, ⟨by simp only; omega, ?_⟩, dayNumber_eq hp hbounds hd hpos⟩
  · simp only
    split <;> omega
  · by_cases hmonth : m < 10
    · simp only [if_pos hmonth, daysInMonth]
      split
      · omega
      · split <;> omega
    · simp only [if_neg hmonth, daysInMonth]
      split
      · by_cases hlast : p.day = 365
        · rw [if_pos (isLeapYear_of_lastDay hp hlast)]
          omega
        · split <;> omega
      · split <;> omega

end WorkflowEngine.Calendar
