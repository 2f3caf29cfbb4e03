import VgiBson.CivilDates
import VgiBson.DateTimeText

/-! # Rendered dates

The civil-time arithmetic finds the day of the calendar, and the text it is written to reads back as
the instant. -/

namespace VgiBson.DateRendering

open CursorWalks CivilDates DecimalNumerals ProlepticCalendar DateTimeText

variable {ε α β : Type}

/-- The day `doe` of a cycle, whose years begin in March: century, olympiad and year of the cycle,
and the day of that year. -/
structure CycleDay (doe q k j d : ℤ) : Prop where
  sum : doe = 36524 * q + 1461 * k + 365 * j + d
  century : 0 ≤ q ∧ q ≤ 3
  olympiad : 0 ≤ k ∧ k ≤ 24
  year : 0 ≤ j ∧ j ≤ 3
  day : 0 ≤ d ∧ d ≤ 365
  last : d = 365 → j = 3 ∧ (k < 24 ∨ q = 3)

theorem exists_cycleDay {doe : ℤ} (h0 : 0 ≤ doe) (h1 : doe ≤ 146096) :
    ∃ q k j d, CycleDay doe q k j d := by
  obtain ⟨q, r, hq, hr, hdoe⟩ : ∃ q r : ℤ, (0 ≤ q ∧ q ≤ 3) ∧
      (0 ≤ r ∧ r ≤ 36524 ∧ (r = 36524 → q = 3)) ∧ doe = 36524 * q + r := by
    by_cases h : doe = 146096
    · exact ⟨3, 36524, by omega⟩
    · exact ⟨doe / 36524, doe % 36524, by omega⟩
  obtain ⟨k, s, hk, hs, hr'⟩ : ∃ k s : ℤ, (0 ≤ k ∧ k ≤ 24) ∧
      (0 ≤ s ∧ s ≤ 1460 ∧ (s = 1460 → k < 24 ∨ q = 3)) ∧ r = 1461 * k + s :=
    ⟨r / 1461, r % 1461, by omega⟩
  obtain ⟨j, d, hj, hd, hs'⟩ : ∃ j d : ℤ, (0 ≤ j ∧ j ≤ 3) ∧
      (0 ≤ d ∧ d ≤ 365 ∧ (d = 365 → j = 3 ∧ s = 1460)) ∧ s = 365 * j + d := by
    by_cases h : s = 1460
    · exact ⟨3, 365, by omega⟩
    · exact ⟨s / 365, s % 365, by omega⟩
  exact ⟨q, k, j, d, by omega, hq, hk, hj, ⟨hd.1, hd.2.1⟩, by omega⟩

/-- The year of the cycle, as `civil_from_days` computes it. -/
def yearOfEra (doe : ℤ) : ℤ := (doe - doe / 1460 + doe / 36524 - doe / 146096) / 365

def dayOfYear (doe : ℤ) : ℤ :=
  doe - (365 * yearOfEra doe + yearOfEra doe / 4 - yearOfEra doe / 100)

section CycleDay

variable {doe q k j d : ℤ}

theorem CycleDay.yearOfEra_eq (h : CycleDay doe q k j d) :
    yearOfEra doe = 100 * q + 4 * k + j := by
  obtain ⟨hsum, hq, hk, hj, hd, hlast⟩ := h
  have hcent : doe / 36524 - doe / 146096 = q := by
    have hr : 1461 * k + 365 * j + d ≤ 36523 ∨ (doe = 146096 ∧ q = 3) := by omega
    rcases hr with hr | hr
    · have hdiv : doe / 36524 = q := by omega
      omega
    · omega
  have hfour : doe / 1460 = 25 * q + k + (24 * q + k + 365 * j + d) / 1460 := by omega
  rw [yearOfEra]
  omega

theorem CycleDay.dayOfYear_eq (h : CycleDay doe q k j d) : dayOfYear doe = d := by
  have hyoe := h.yearOfEra_eq
  obtain ⟨hsum, hq, hk, hj, -, -⟩ := h
  have hfour : yearOfEra doe / 4 = 25 * q + k := by omega
  have hcent : yearOfEra doe / 100 = q := by omega
  rw [dayOfYear]
  omega

end CycleDay

/-- The last day of a long year is the leap day of the calendar year after it. -/
theorem dayOfYear_spec {doe : ℤ} (h0 : 0 ≤ doe) (h1 : doe ≤ 146096) :
    (0 ≤ yearOfEra doe ∧ yearOfEra doe ≤ 399) ∧ (0 ≤ dayOfYear doe ∧ dayOfYear doe ≤ 365) ∧
      (dayOfYear doe = 365 → ∀ era, isLeap (yearOfEra doe + era * 400 + 1) = true) := by
  obtain ⟨q, k, j, d, h⟩ := exists_cycleDay h0 h1
  rw [h.yearOfEra_eq, h.dayOfYear_eq]
  obtain ⟨-, hq, hk, hj, hd, hlast⟩ := h
  refine ⟨by omega, hd, ?_⟩
  intro h365 era
  obtain ⟨hj3, hkq⟩ := hlast h365
  simp only [isLeap, decide_eq_true_eq]
  omega

/-- The first day of each month from March on, and its length. -/
theorem march_months : ∀ mp < 10, ∀ leap : Bool,
    daysBeforeMonth leap (mp + 3) = 59 + leap.toNat + (153 * mp + 2) / 5 ∧
    monthLength leap (mp + 3) = (153 * (mp + 1) + 2) / 5 - (153 * mp + 2) / 5 := by
  decide

/-- A day is in the month that the computed index names. -/
theorem month_of_day (n : ℕ) : (153 * ((5 * n + 2) / 153) + 2) / 5 ≤ n ∧
    n < (153 * ((5 * n + 2) / 153 + 1) + 2) / 5 := by
  omega

/-- The date of day `n` of the year that begins in March of `y`. -/
theorem exists_civilDate (y : ℤ) {n mp m : ℕ} (hn : n < 366)
    (h365 : n = 365 → isLeap (y + 1) = true) (hmp : (5 * n + 2) / 153 = mp)
    (hm : (if mp < 10 then mp + 3 else mp - 9) = m) :
    ∃ c : CivilDate, c.year = (if m ≤ 2 then y + 1 else y) ∧ c.month = m ∧
      c.day = n - (153 * mp + 2) / 5 + 1 ∧
      c.dayNumber = daysBeforeYear y + 59 + (isLeap y).toNat + n := by
  obtain ⟨hfirst, hlast⟩ := hmp ▸ month_of_day n
  have h12 : mp < 12 := by omega
  by_cases h10 : mp < 10
  · obtain ⟨hbefore, hlength⟩ := march_months mp h10 (isLeap y)
    rw [if_pos h10] at hm
    obtain rfl := hm
    have hyear : ¬ mp + 3 ≤ 2 := by omega
    refine ⟨⟨y, mp + 3, n - (153 * mp + 2) / 5 + 1, by omega, by omega, by omega, by omega⟩,
      (if_neg hyear).symm, rfl, rfl, ?_⟩
    simp only [CivilDate.dayNumber, hbefore]
    omega
  · -- January and February belong to the next year
    rw [if_neg h10] at hm
    have hsucc := daysBeforeYear_succ y
    have hyear : daysBeforeYear (y + 1) = daysBeforeYear y + 365 + (isLeap y).toNat := by
      rw [hsucc, yearLength]
      cases isLeap y <;> simp [add_assoc]
    obtain rfl | rfl : mp = 10 ∨ mp = 11 := by omega
    · obtain rfl : 1 = m := hm
      refine ⟨⟨y + 1, 1, n - (153 * 10 + 2) / 5 + 1, le_rfl, by omega, by omega, ?_⟩,
        rfl, rfl, rfl, ?_⟩
      · simp only [monthLength]
        omega
      · have hbefore : daysBeforeMonth (isLeap (y + 1)) 1 = 0 := rfl
        simp only [CivilDate.dayNumber, hbefore, hyear]
        omega
    · obtain rfl : 2 = m := hm
      refine ⟨⟨y + 1, 2, n - (153 * 11 + 2) / 5 + 1, by omega, by omega, by omega, ?_⟩,
        rfl, rfl, rfl, ?_⟩
      · cases hl : isLeap (y + 1) with
        | true =>
          simp only [monthLength, if_true]
          omega
        | false =>
          have hne : n ≠ 365 := by
            intro h
            rw [h365 h] at hl
            cases hl
          simp only [monthLength, Bool.false_eq_true, if_false]
          omega
      · have hbefore : daysBeforeMonth (isLeap (y + 1)) 2 = 31 := rfl
        simp only [CivilDate.dayNumber, hbefore, hyear]
        omega

theorem i64_of_bounds {x : ℤ} (hlo : -(2 ^ 63) ≤ x) (hhi : x < 2 ^ 63) :
    (i64 x : Outcome ε ℤ) = .ok x := if_pos ⟨hlo, hhi⟩

/-- The cast keeps small nonnegative numbers. -/
theorem asU32_of_nonneg {x : ℤ} (h0 : 0 ≤ x) (h1 : x < 2 ^ 32) : asU32 x = x.toNat := by
  rw [asU32, Int.emod_eq_of_lt h0 h1]

/-- Two ways to one intermediate value. -/
theorem ite_bind_eq {c : Prop} [Decidable c] {x y : Outcome ε α} {a : α} (hx : c → x = .ok a)
    (hy : ¬ c → y = .ok a) (rest : α → Outcome ε β) :
    (if c then x >>= rest else y >>= rest) = rest a := by
  by_cases h : c
  · rw [if_pos h, hx h, ok_bind]
  · rw [if_neg h, hy h, ok_bind]

/-- The last lines of `civil_from_days`, from the day of the year on. -/
theorem monthOfDay_eq {y : ℤ} {n : ℕ} (hn : n < 366) (hlo : -(2 ^ 62) ≤ y) (hhi : y ≤ 2 ^ 62) :
    (do
      let mp := (← i64 ((← i64 (5 * n)) + 2)).tdiv 153
      let monthDays := (← i64 ((← i64 (153 * mp)) + 2)).tdiv 5
      let d := asU32 (← i64 ((← i64 (n - monthDays)) + 1))
      let m := asU32 (← if mp < 10 then i64 (mp + 3) else i64 (mp - 9))
      let year ← if m ≤ 2 then i64 (y + 1) else pure y
      pure (year, m, d) : Outcome ε (ℤ × ℕ × ℕ)) =
    .ok (if (if (5 * n + 2) / 153 < 10 then (5 * n + 2) / 153 + 3 else (5 * n + 2) / 153 - 9) ≤ 2
        then y + 1 else y,
      if (5 * n + 2) / 153 < 10 then (5 * n + 2) / 153 + 3 else (5 * n + 2) / 153 - 9,
      n - (153 * ((5 * n + 2) / 153) + 2) / 5 + 1) := by
  obtain ⟨hfirst, -⟩ := month_of_day n
  obtain ⟨mp, hmp⟩ : ∃ mp, mp = (5 * n + 2) / 153 := ⟨_, rfl⟩
  rw [← hmp] at hfirst ⊢
  have hmp' : ((5 * n + 2 : ℤ)).tdiv 153 = mp := by
    rw [Int.tdiv_eq_ediv_of_nonneg (by omega)]
    omega
  have hdays : (153 * (mp : ℤ) + 2).tdiv 5 = ((153 * mp + 2) / 5 : ℕ) := by
    rw [Int.tdiv_eq_ediv_of_nonneg (by omega)]
    omega
  have hday : asU32 (n - ((153 * mp + 2) / 5 : ℕ) + 1) = n - (153 * mp + 2) / 5 + 1 := by
    rw [asU32_of_nonneg (by omega) (by omega)]
    omega
  have hyear (m : ℕ) (d : ℕ) : (if m ≤ 2 then (do let year ← i64 (y + 1); pure (year, m, d))
      else (do let year ← pure y; pure (year, m, d)) : Outcome ε (ℤ × ℕ × ℕ)) =
      .ok (if m ≤ 2 then y + 1 else y, m, d) := by
    split
    · rw [i64_of_bounds (by omega) (by omega)]
      rfl
    · rfl
  rw [i64_of_bounds (by omega) (by omega), ok_bind, i64_of_bounds (by omega) (by omega), ok_bind]
  simp only [hmp']
  rw [i64_of_bounds (by omega) (by omega), ok_bind, i64_of_bounds (by omega) (by omega), ok_bind]
  simp only [hdays]
  rw [i64_of_bounds (by omega) (by omega), ok_bind, i64_of_bounds (by omega) (by omega), ok_bind]
  simp only [hday, hyear]
  by_cases h10 : mp < 10
  · have hm : asU32 (mp + 3) = mp + 3 := asU32_of_nonneg (by omega) (by omega)
    rw [if_pos h10, if_pos (by omega), i64_of_bounds (by omega) (by omega), ok_bind, hm]
  · have hm : asU32 (mp - 9) = mp - 9 := by
      rw [asU32_of_nonneg (by omega) (by omega)]
      omega
    rw [if_neg h10, if_neg (by omega), i64_of_bounds (by omega) (by omega), ok_bind, hm]

/-- Truncating division of the shifted number rounds down. -/
theorem tdiv_shifted {x : ℤ} : (if x ≥ 0 then x else x - 146096).tdiv 146097 = x / 146097 := by
  split
  · next h => exact Int.tdiv_eq_ediv_of_nonneg h
  · have hsign : Int.sign 146097 = 1 := rfl
    rw [Int.tdiv_eq_ediv, hsign]
    split <;> omega

/-- The days before a year that begins in March, by the parts of the year in the cycle. -/
theorem daysBeforeMarch (y : ℤ) : daysBeforeYear y + 59 + (isLeap y).toNat =
    365 * y + leapYearsThrough y - 719468 := by
  have hpred := leapYearsThrough_pred y
  have hepoch : leapYearsThrough 1969 = 477 := rfl
  have hbool : (if isLeap y = true then 1 else 0 : ℤ) = (isLeap y).toNat := by
    cases isLeap y <;> rfl
  rw [daysBeforeYear, hepoch]
  omega

/-- The date, computed without overflow, is the date of the day. -/
theorem civilFromDays_spec {z : ℤ} (hlo : -(2 ^ 61) ≤ z) (hhi : z ≤ 2 ^ 61) :
    ∃ c : CivilDate, (civilFromDays z : Outcome ε _) = .ok (c.year, c.month, c.day) ∧
      c.dayNumber = z := by
  obtain ⟨era, hera⟩ : ∃ era, era = (z + 719468) / 146097 := ⟨_, rfl⟩
  obtain ⟨doe, hdoe⟩ : ∃ doe, doe = (z + 719468) - era * 146097 := ⟨_, rfl⟩
  have h0 : 0 ≤ doe := by omega
  have h1 : doe ≤ 146096 := by omega
  obtain ⟨⟨hy0, hy1⟩, ⟨hd0, hd1⟩, h365⟩ := dayOfYear_spec h0 h1
  obtain ⟨yoe, hyoe⟩ : ∃ yoe, yoe = yearOfEra doe := ⟨_, rfl⟩
  obtain ⟨n, hn⟩ := Int.eq_ofNat_of_zero_le hd0
  obtain ⟨c, hyear, hmonth, hday, hnumber⟩ := exists_civilDate (yoe + era * 400) (n := n)
    (by omega) (fun h => hyoe ▸ h365 (by omega) era) rfl rfl
  have hdoy : doe - (365 * yoe + yoe / 4 - yoe / 100) = n := by
    rw [hyoe, ← hn, dayOfYear]
  refine ⟨c, ?_, ?_⟩
  · have hdiv := @tdiv_shifted (z + 719468)
    rw [← hera] at hdiv
    rw [civilFromDays, i64_of_bounds (by omega) (by omega), ok_bind]
    extract_lets jp
    rw [ite_bind_eq (a := if z + 719468 ≥ 0 then z + 719468 else z + 719468 - 146096)]
    · simp only [jp, hdiv]
      rw [i64_of_bounds (by omega) (by omega), ok_bind, i64_of_bounds (by omega) (by omega),
        ok_bind, ← hdoe]
      simp only [Int.tdiv_eq_ediv_of_nonneg h0]
      rw [i64_of_bounds (by omega) (by omega), ok_bind, i64_of_bounds (by omega) (by omega),
        ok_bind, i64_of_bounds (by omega) (by omega), ok_bind,
        Int.tdiv_eq_ediv_of_nonneg (by omega)]
      have hyoe' : (doe - doe / 1460 + doe / 36524 - doe / 146096) / 365 = yoe := hyoe.symm
      simp only [hyoe']
      rw [← hyoe] at hy0 hy1
      simp only [Int.tdiv_eq_ediv_of_nonneg hy0]
      rw [i64_of_bounds (by omega) (by omega), ok_bind, i64_of_bounds (by omega) (by omega),
        ok_bind, i64_of_bounds (by omega) (by omega), ok_bind, i64_of_bounds (by omega) (by omega),
        ok_bind, i64_of_bounds (by omega) (by omega), ok_bind, i64_of_bounds (by omega) (by omega),
        ok_bind, hdoy]
      rw [hyear, hmonth, hday]
      exact monthOfDay_eq (by omega) (by omega) (by omega)
    · intro h
      rw [if_pos h]
      rfl
    · intro h
      rw [if_neg h]
      exact i64_of_bounds (by omega) (by omega)
  · have hfour : (yoe + era * 400) / 4 = yoe / 4 + era * 100 := by omega
    have hcent : (yoe + era * 400) / 100 = yoe / 100 + era * 4 := by omega
    have hcycle : (yoe + era * 400) / 400 = era := by omega
    rw [hnumber, daysBeforeMarch, leapYearsThrough, hfour, hcent, hcycle, ← hdoy, hdoe]
    ring

/-- The digits of a number with zeros in front up to the width. -/
def paddedDigits (width n : ℕ) : List Char :=
  List.replicate (width - (Nat.toDigits 10 n).length) '0' ++ Nat.toDigits 10 n

theorem spells_paddedDigits (width n : ℕ) : Spells (paddedDigits width n) n where
  digits := digits_append.mpr ⟨digits_zeros _, digits_toDigits n⟩
  ne_nil := by simp [paddedDigits]
  value := digitsValue_padded _ n

theorem length_paddedDigits {width n : ℕ} (hw : 0 < width) (hn : n < 10 ^ width) :
    (paddedDigits width n).length = width := by
  have hle := (Nat.length_toDigits_le_iff (b := 10) (by decide) hw).mpr hn
  rw [paddedDigits, List.length_append, List.length_replicate]
  omega

theorem padded_of_nonneg (width : ℕ) {i : ℤ} (h : 0 ≤ i) :
    padded width i = String.ofList (paddedDigits width i.toNat) := by
  have habs : i.natAbs = i.toNat := by omega
  have htext : toString i.natAbs = String.ofList (Nat.toDigits 10 i.toNat) := by
    rw [habs, Nat.toString_eq_ofList_toDigits]
  simp only [padded, if_neg (not_lt.mpr h), htext, String.length_ofList, String.empty_append,
    paddedDigits, String.ofList_append, String.length_empty, Nat.sub_zero]

theorem padded_of_neg (width : ℕ) {i : ℤ} (h : i < 0) :
    padded width i = String.ofList ('-' :: paddedDigits (width - 1) i.natAbs) := by
  have hsign : "-" = String.ofList ['-'] := rfl
  have htext : toString i.natAbs = String.ofList (Nat.toDigits 10 i.natAbs) :=
    Nat.toString_eq_ofList_toDigits
  simp only [padded, if_pos h, htext, hsign, String.length_ofList, List.length_singleton,
    ← String.ofList_append, paddedDigits]
  rfl

/-- A year with its sign, and the width that is left to its digits. -/
theorem padded_year (i : ℤ) : ∃ ds, Spells ds i.natAbs ∧
    padded 4 i = String.ofList ((if i < 0 then ['-'] else []) ++ ds) ∧
    (0 ≤ i → i ≤ 9999 → ds.length = 4) := by
  by_cases h : i < 0
  · refine ⟨paddedDigits 3 i.natAbs, spells_paddedDigits 3 _, ?_, fun h0 => absurd h (by omega)⟩
    rw [padded_of_neg 4 h, if_pos h]
    rfl
  · have habs : i.natAbs = i.toNat := by omega
    refine ⟨paddedDigits 4 i.natAbs, spells_paddedDigits 4 _, ?_, fun _ h9 => ?_⟩
    · rw [padded_of_nonneg 4 (not_lt.mp h), if_neg h, habs, List.nil_append]
    · exact length_paddedDigits (by decide) (by omega)

/-- What is claimed of the text of an instant. -/
structure Renders (text : String) (millisecond : Option ℕ) (instant : ℤ) : Prop where
  reads : ∃ c, readDateTime text = some c ∧ c.instant = instant ∧ c.millisecond = millisecond ∧
    (0 ≤ c.date.year → c.date.year ≤ 9999 → FixedShape millisecond.isSome text)

/-- The milliseconds that are written for nanoseconds, if any are. -/
def fractionMillis (nanos : ℕ) : Option ℕ := if nanos = 0 then none else some (nanos / 1000000)

theorem fractionMillis_lt {nanos : ℕ} (h : nanos < 1000000000) :
    ∀ ms ∈ fractionMillis nanos, ms < 1000 := by
  intro ms hms
  rw [fractionMillis] at hms
  split at hms <;> cases hms
  omega

/-- Written out, the text of seconds is that of a date, whose year may have a sign, and of the
second of its day. -/
theorem formatRfc3339_layout {secs : ℤ} (hlo : -(2 ^ 63) ≤ secs) (hhi : secs < 2 ^ 63)
    (nanos : ℕ) : ∃ date : CivilDate, date.dayNumber = secs / 86400 ∧
      ∀ year, padded 4 date.year = String.ofList year →
        (formatRfc3339 secs nanos : Outcome ε String) = .ok (String.ofList (layout year
          (paddedDigits 2 date.month) (paddedDigits 2 date.day)
          (paddedDigits 2 ((secs % 86400).toNat / 3600))
          (paddedDigits 2 ((secs % 86400).toNat % 3600 / 60))
          (paddedDigits 2 ((secs % 86400).toNat % 60))
          ((fractionMillis nanos).map (paddedDigits 3)))) := by
  obtain ⟨date, hdate, hday⟩ :=
    civilFromDays_spec (ε := ε) (z := secs / 86400) (by omega) (by omega)
  refine ⟨date, hday, ?_⟩
  intro year hyear
  obtain ⟨r, hr⟩ := Int.eq_ofNat_of_zero_le (Int.emod_nonneg secs (by decide : (86400 : ℤ) ≠ 0))
  have hhour : (r : ℤ).tdiv 3600 = (r / 3600 : ℕ) := by
    rw [Int.tdiv_eq_ediv_of_nonneg (Int.natCast_nonneg r)]
    rfl
  have hminute : ((r : ℤ).tmod 3600).tdiv 60 = (r % 3600 / 60 : ℕ) := by
    rw [Int.tmod_eq_emod_of_nonneg (Int.natCast_nonneg r), Int.tdiv_eq_ediv_of_nonneg (by omega)]
    rfl
  have hsecond : (r : ℤ).tmod 60 = (r % 60 : ℕ) := by
    rw [Int.tmod_eq_emod_of_nonneg (Int.natCast_nonneg r)]
    rfl
  simp only [formatRfc3339, hr, hhour, hminute, hsecond, hdate, ok_bind, hyear,
    padded_of_nonneg _ (Int.natCast_nonneg _), Int.toNat_natCast]
  have hdash : "-" = String.ofList ['-'] := rfl
  have htee : "T" = String.ofList ['T'] := rfl
  have hcolon : ":" = String.ofList [':'] := rfl
  have hpoint : "." = String.ofList ['.'] := rfl
  have hzed : "Z" = String.ofList ['Z'] := rfl
  simp only [hdash, htee, hcolon, hpoint, hzed, ← String.ofList_append, layout, fractionMillis]
  split <;> simp [ending, pure, Except.pure]

/-- The text of seconds, and of milliseconds when there are nanoseconds. -/
theorem formatRfc3339_spec {secs : ℤ} {nanos : ℕ} (hlo : -(2 ^ 63) ≤ secs) (hhi : secs < 2 ^ 63)
    (hnanos : nanos < 1000000000) :
    ∃ text, (formatRfc3339 secs nanos : Outcome ε String) = .ok text ∧
      Renders text (fractionMillis nanos) (secs * 1000 + (nanos / 1000000 : ℕ)) := by
  obtain ⟨date, hday, htext⟩ := formatRfc3339_layout (ε := ε) hlo hhi nanos
  obtain ⟨year, hyear, hyeartext, hyearlen⟩ := padded_year date.year
  obtain ⟨r, hr⟩ : ∃ r, r = (secs % 86400).toNat := ⟨_, rfl⟩
  rw [← hr] at htext
  let c : CivilDateTime := ⟨date, r / 3600, r % 3600 / 60, r % 60, fractionMillis nanos, by omega,
    by omega, by omega, fractionMillis_lt hnanos⟩
  have hthree : ∀ ds ∈ (fractionMillis nanos).map (paddedDigits 3), Digits ds ∧ ds.length = 3 := by
    intro ds hds
    obtain ⟨ms, hms, rfl⟩ := Option.mem_map.mp hds
    exact ⟨(spells_paddedDigits 3 ms).digits,
      length_paddedDigits (by decide) (fractionMillis_lt hnanos ms hms)⟩
  have htwo (n : ℕ) (hn : n < 100) :
      Digits (paddedDigits 2 n) ∧ (paddedDigits 2 n).length = 2 :=
    ⟨(spells_paddedDigits 2 n).digits, length_paddedDigits (by decide) hn⟩
  have hmonth := date.month_le
  have hdayle := date.day_le_31
  refine ⟨_, htext _ hyeartext, c, ?_, ?_, rfl, ?_⟩
  · have hvalue (ms : Option ℕ) : (ms.map (paddedDigits 3)).map digitsValue = ms := by
      cases ms <;> simp [(spells_paddedDigits 3 _).value]
    exact readDateTime_layout c hyear (spells_paddedDigits 2 _) (spells_paddedDigits 2 _)
      (spells_paddedDigits 2 _) (spells_paddedDigits 2 _) (spells_paddedDigits 2 _)
      (hvalue (fractionMillis nanos)) hthree
  · have hms : (c.millisecond.getD 0 : ℕ) = nanos / 1000000 := by
      simp only [c, fractionMillis]
      split
      · next h => simp [h]
      · rfl
    rw [CivilDateTime.instant, hms]
    simp only [c, hday]
    omega
  · intro h0 h9
    have hnonneg : ¬ date.year < 0 := not_lt.mpr h0
    have hdigits : Digits year ∧ year.length = 4 := ⟨hyear.digits, hyearlen h0 h9⟩
    rw [if_neg hnonneg, List.nil_append, ← Option.isSome_map (f := paddedDigits 3)]
    exact fixedShape_layout hdigits (htwo date.month (by omega)) (htwo date.day (by omega))
      (htwo (r / 3600) (by omega)) (htwo (r % 3600 / 60) (by omega)) (htwo (r % 60) (by omega))
      hthree

/-- A text renders one instant only. -/
theorem Renders.instant_eq {text : String} {ms ms' : Option ℕ} {i i' : ℤ}
    (h : Renders text ms i) (h' : Renders text ms' i') : i = i' := by
  obtain ⟨c, hread, rfl, -⟩ := h
  obtain ⟨c', hread', rfl, -⟩ := h'
  rw [hread] at hread'
  rw [Option.some.inj hread']

/-- The milliseconds that are written after a point. -/
def writtenMillis (millis : ℤ) : Option ℕ :=
  if millis % 1000 = 0 then none else some (millis % 1000).toNat

theorem fractionMillis_remainder (millis : ℤ) :
    fractionMillis ((millis % 1000).toNat * 1000000) = writtenMillis millis := by
  have hzero : (millis % 1000).toNat * 1000000 = 0 ↔ millis % 1000 = 0 := by omega
  have hquot : (millis % 1000).toNat * 1000000 / 1000000 = (millis % 1000).toNat := by omega
  simp only [fractionMillis, writtenMillis, hzero, hquot]

/-- Milliseconds are seconds and nanoseconds. -/
theorem epochMillisToRfc3339_eq_format (millis : ℤ) : (epochMillisToRfc3339 millis : Outcome ε _) =
    formatRfc3339 (millis / 1000) ((millis % 1000).toNat * 1000000) := by
  obtain ⟨r, hr⟩ := Int.eq_ofNat_of_zero_le (Int.emod_nonneg millis (by decide : (1000 : ℤ) ≠ 0))
  have hnanos : asU32 ((r : ℤ) * 1000000) = r * 1000000 := by
    rw [asU32_of_nonneg (by omega) (by omega)]
    omega
  rw [epochMillisToRfc3339, hr, i64_of_bounds (by omega) (by omega), ok_bind, hnanos,
    Int.toNat_natCast]

theorem epochMillisToRfc3339_spec {millis : ℤ} (hlo : -(2 ^ 63) ≤ millis)
    (hhi : millis < 2 ^ 63) : ∃ text,
      (epochMillisToRfc3339 millis : Outcome ε String) = .ok text ∧
      Renders text (writtenMillis millis) millis := by
  obtain ⟨text, htext, hrenders⟩ := @formatRfc3339_spec ε (millis / 1000)
    ((millis % 1000).toNat * 1000000) (by omega) (by omega) (by omega)
  refine ⟨text, (epochMillisToRfc3339_eq_format millis).trans htext, ?_⟩
  have hinstant : millis / 1000 * 1000 +
      ((millis % 1000).toNat * 1000000 / 1000000 : ℕ) = millis := by omega
  rwa [fractionMillis_remainder, hinstant] at hrenders

theorem epochSecsToRfc3339_spec {secs : ℤ} (hlo : -(2 ^ 63) ≤ secs) (hhi : secs < 2 ^ 63) :
    ∃ text, (epochSecsToRfc3339 secs : Outcome ε String) = .ok text ∧
      Renders text none (secs * 1000) := by
  obtain ⟨text, htext, hrenders⟩ := @formatRfc3339_spec ε secs 0 hlo hhi (by decide)
  refine ⟨text, htext, ?_⟩
  rw [fractionMillis, if_pos rfl, Nat.zero_div, Int.natCast_zero, Int.add_zero] at hrenders
  exact hrenders

/-- Distinct milliseconds have distinct texts. -/
theorem epochMillisToRfc3339_inj {millis millis' : Int64}
    (h : (epochMillisToRfc3339 millis.toInt : Outcome ε String) =
      epochMillisToRfc3339 millis'.toInt) : millis = millis' := by
  obtain ⟨text, htext, hrenders⟩ :=
    epochMillisToRfc3339_spec (ε := ε) millis.le_toInt millis.toInt_lt
  obtain ⟨text', htext', hrenders'⟩ :=
    epochMillisToRfc3339_spec (ε := ε) millis'.le_toInt millis'.toInt_lt
  rw [htext, htext'] at h
  rw [Except.ok.inj h] at hrenders
  exact Int64.toInt_inj.mp (hrenders.instant_eq hrenders')

theorem epochSecsToRfc3339_inj {secs secs' : Int64}
    (h : (epochSecsToRfc3339 secs.toInt : Outcome ε String) =
      epochSecsToRfc3339 secs'.toInt) : secs = secs' := by
  obtain ⟨text, htext, hrenders⟩ := epochSecsToRfc3339_spec (ε := ε) secs.le_toInt secs.toInt_lt
  obtain ⟨text', htext', hrenders'⟩ :=
    epochSecsToRfc3339_spec (ε := ε) secs'.le_toInt secs'.toInt_lt
  rw [htext, htext'] at h
  rw [Except.ok.inj h] at hrenders
  have hinstant := hrenders.instant_eq hrenders'
  exact Int64.toInt_inj.mp (by omega)

/-- Dates are rendered exactly, over the whole range of milliseconds and of seconds. -/
theorem dates_render_exactly :
    (∀ millis : Int64, ∃ text c,
      (epochMillisToRfc3339 millis.toInt : Outcome ε String) = .ok text ∧
      readDateTime text = some c ∧ c.instant = millis.toInt ∧
      (c.millisecond = none ↔ millis.toInt % 1000 = 0) ∧
      (0 ≤ c.date.year → c.date.year ≤ 9999 → FixedShape c.millisecond.isSome text)) ∧
    (∀ millis millis' : Int64, (epochMillisToRfc3339 millis.toInt : Outcome ε String) =
      epochMillisToRfc3339 millis'.toInt → millis = millis') ∧
    (∀ secs : Int64, ∃ text c, (epochSecsToRfc3339 secs.toInt : Outcome ε String) = .ok text ∧
      readDateTime text = some c ∧ c.instant = secs.toInt * 1000 ∧ c.millisecond = none ∧
      (0 ≤ c.date.year → c.date.year ≤ 9999 → FixedShape false text)) ∧
    ∀ secs secs' : Int64, (epochSecsToRfc3339 secs.toInt : Outcome ε String) =
      epochSecsToRfc3339 secs'.toInt → secs = secs' := by
  refine ⟨?_, fun _ _ h => epochMillisToRfc3339_inj h, ?_, fun _ _ h => epochSecsToRfc3339_inj h⟩
  · intro millis
    obtain ⟨text, htext, c, hread, hinstant, hms, hshape⟩ :=
      epochMillisToRfc3339_spec (ε := ε) millis.le_toInt millis.toInt_lt
    refine ⟨text, c, htext, hread, hinstant, ?_, hms ▸ hshape⟩
    rw [hms, writtenMillis]
    split
    · next h => exact iff_of_true rfl h
    · next h => exact iff_of_false (Option.some_ne_none _) h
  · intro secs
    obtain ⟨text, htext, c, hread, hinstant, hms, hshape⟩ :=
      epochSecsToRfc3339_spec (ε := ε) secs.le_toInt secs.toInt_lt
    exact ⟨text, c, htext, hread, hinstant, hms, hshape⟩

end VgiBson.DateRendering
