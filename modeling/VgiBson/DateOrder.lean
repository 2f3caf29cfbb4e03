import VgiBson.DateRendering

/-! # The order of rendered dates

In the years from 0 to 9999 all texts have one shape, so that comparing texts is comparing years,
months, days and times. Only the ending breaks the order: a point comes before the Z. -/

namespace VgiBson.DateOrder

open CursorWalks CivilDates DecimalNumerals ProlepticCalendar DateTimeText DateRendering

variable {ε : Type}

theorem append_lt_append_iff {α : Type} [LT α] {l m r s : List α}
    (hlen : l.length = m.length) : l ++ r < m ++ s ↔ l < m ∨ l = m ∧ r < s := by
  induction l generalizing m with
  | nil =>
    obtain rfl := List.length_eq_zero_iff.mp hlen.symm
    simp
  | cons a l ih =>
    cases m with
    | nil => cases hlen
    | cons b m =>
      rw [List.length_cons, List.length_cons, Nat.add_right_cancel_iff] at hlen
      rw [List.cons_append, List.cons_append, List.cons_lt_cons_iff, List.cons_lt_cons_iff, ih hlen,
        List.cons.injEq]
      tauto

/-- Numbers of one width are compared first, and what follows decides between equal ones. -/
theorem padded_append_lt_iff {width n m : ℕ} (hwidth : 0 < width) (hn : n < 10 ^ width)
    (hm : m < 10 ^ width) (l r : List Char) :
    paddedDigits width n ++ l < paddedDigits width m ++ r ↔ n < m ∨ n = m ∧ l < r := by
  have hlen := length_paddedDigits hwidth hn
  have hlen' := length_paddedDigits hwidth hm
  have hsn := spells_paddedDigits width n
  have hsm := spells_paddedDigits width m
  have heq : paddedDigits width n = paddedDigits width m ↔ n = m := by
    constructor
    · intro h
      rw [← hsn.value, h, hsm.value]
    · rintro rfl
      rfl
  rw [append_lt_append_iff (hlen.trans hlen'.symm),
    digits_lt_iff hsn.digits hsm.digits (hlen.trans hlen'.symm), hsn.value, hsm.value, heq]

/-- The text of a date and a time of day. -/
def dateTimeText (date : CivilDate) (secondOfDay : ℕ) (millisecond : Option ℕ) : List Char :=
  layout (paddedDigits 4 date.year.toNat) (paddedDigits 2 date.month) (paddedDigits 2 date.day)
    (paddedDigits 2 (secondOfDay / 3600)) (paddedDigits 2 (secondOfDay % 3600 / 60))
    (paddedDigits 2 (secondOfDay % 60)) (millisecond.map (paddedDigits 3))

/-- The order of the endings: milliseconds by their number, and none after all of them. -/
def EndsBefore : Option ℕ → Option ℕ → Prop
  | some ms, some ms' => ms < ms'
  | some _, none => True
  | none, _ => False

theorem ending_lt_iff {ms ms' : Option ℕ} (h : ∀ n ∈ ms, n < 1000) (h' : ∀ n ∈ ms', n < 1000) :
    ending (ms.map (paddedDigits 3)) < ending (ms'.map (paddedDigits 3)) ↔ EndsBefore ms ms' := by
  cases ms with
  | none =>
    refine iff_of_false ?_ id
    cases ms' with
    | none => exact List.lt_irrefl _
    | some n' =>
      rw [Option.map_none, ending, Option.map_some, ending, List.cons_lt_cons_iff]
      rintro (hlt | ⟨heq, -⟩)
      · exact absurd hlt (by decide)
      · cases heq
  | some n =>
    cases ms' with
    | none =>
      have hpoint : '.' < 'Z' := by decide
      exact iff_of_true (List.cons_lt_cons_iff.mpr (.inl hpoint)) trivial
    | some n' =>
      rw [Option.map_some, Option.map_some, ending, ending, List.cons_lt_cons_self,
        padded_append_lt_iff (by decide) (h n rfl) (h' n' rfl), EndsBefore]
      simp

section Fields

-- what decides if the fields are equal
variable {P : Prop}

theorem secondOfDay_lt_iff (n m : ℕ) : (n / 3600 < m / 3600 ∨ n / 3600 = m / 3600 ∧
    (n % 3600 / 60 < m % 3600 / 60 ∨ n % 3600 / 60 = m % 3600 / 60 ∧
      (n % 60 < m % 60 ∨ n % 60 = m % 60 ∧ P))) ↔ n < m ∨ n = m ∧ P := by
  by_cases hp : P
  · simp only [hp, and_true]
    omega
  · simp only [hp, and_false, or_false]
    omega

theorem second_lt_iff {d d' : ℤ} {n n' : ℕ} (hn : n < 86400) (hn' : n' < 86400) :
    (d < d' ∨ d = d' ∧ (n < n' ∨ n = n' ∧ P)) ↔
      d * 86400 + n < d' * 86400 + n' ∨ d * 86400 + n = d' * 86400 + n' ∧ P := by
  by_cases hp : P
  · simp only [hp, and_true]
    omega
  · simp only [hp, and_false, or_false]
    omega

theorem civilDate_lt_iff (c c' : CivilDate) : (c.year < c'.year ∨ c.year = c'.year ∧
    (c.month < c'.month ∨ c.month = c'.month ∧ (c.day < c'.day ∨ c.day = c'.day ∧ P))) ↔
      c.dayNumber < c'.dayNumber ∨ c.dayNumber = c'.dayNumber ∧ P := by
  have heq : c.dayNumber = c'.dayNumber ↔
      c.year = c'.year ∧ c.month = c'.month ∧ c.day = c'.day := by
    constructor
    · intro h
      rw [CivilDate.dayNumber_inj h]
      exact ⟨rfl, rfl, rfl⟩
    · intro h
      rw [CivilDate.ext h.1 h.2.1 h.2.2]
  rw [CivilDate.dayNumber_lt_iff, heq]
  tauto

end Fields

/-- A date decides before a time of day, and a time of day before the ending. -/
theorem dateTimeText_lt_iff {date date' : CivilDate} {n n' : ℕ} {ms ms' : Option ℕ}
    (hdate : 0 ≤ date.year ∧ date.year ≤ 9999) (hdate' : 0 ≤ date'.year ∧ date'.year ≤ 9999)
    (hn : n < 86400) (hn' : n' < 86400) (h : ∀ n ∈ ms, n < 1000) (h' : ∀ n ∈ ms', n < 1000) :
    dateTimeText date n ms < dateTimeText date' n' ms' ↔
      date.dayNumber * 86400 + n < date'.dayNumber * 86400 + n' ∨
        date.dayNumber * 86400 + n = date'.dayNumber * 86400 + n' ∧ EndsBefore ms ms' := by
  have hmonth := date.month_le
  have hmonth' := date'.month_le
  have hday := date.day_le_31
  have hday' := date'.day_le_31
  have hyear : date.year.toNat < date'.year.toNat ↔ date.year < date'.year := by omega
  have hyear' : date.year.toNat = date'.year.toNat ↔ date.year = date'.year := by omega
  have hwidth : 0 < 2 := by decide
  rw [← second_lt_iff hn hn', ← secondOfDay_lt_iff n n', ← civilDate_lt_iff, dateTimeText,
    dateTimeText, layout, layout, padded_append_lt_iff (by decide) (by omega) (by omega),
    List.cons_lt_cons_self, padded_append_lt_iff hwidth (by omega) (by omega),
    List.cons_lt_cons_self, padded_append_lt_iff hwidth (by omega) (by omega),
    List.cons_lt_cons_self, padded_append_lt_iff hwidth (by omega) (by omega),
    List.cons_lt_cons_self, padded_append_lt_iff hwidth (by omega) (by omega),
    List.cons_lt_cons_self, padded_append_lt_iff hwidth (by omega) (by omega),
    ending_lt_iff h h', hyear, hyear']

/-- The seconds of the years from 0 to 9999. -/
def InShortYears (secs : ℤ) : Prop := -62167219200 ≤ secs ∧ secs < 253402300800

theorem year_of_inShortYears {secs : ℤ} (h : InShortYears secs) {date : CivilDate}
    (hdate : date.dayNumber = secs / 86400) : 0 ≤ date.year ∧ date.year ≤ 9999 := by
  obtain ⟨hlo, hhi⟩ := h
  obtain ⟨hge, hlt⟩ := date.dayNumber_bounds
  have hzero : daysBeforeYear 0 = -719528 := rfl
  have hend : daysBeforeYear 10000 = 2932897 := rfl
  constructor
  · by_contra hneg
    have hmono := @daysBeforeYear_mono (date.year + 1) 0 (by omega)
    omega
  · by_contra hlong
    have hmono := @daysBeforeYear_mono 10000 date.year (by omega)
    omega

/-- In these years the year is written without a sign. -/
theorem formatRfc3339_eq {secs : ℤ} (h : InShortYears secs) (nanos : ℕ) : ∃ date : CivilDate,
    date.dayNumber = secs / 86400 ∧ (formatRfc3339 secs nanos : Outcome ε String) =
      .ok (String.ofList (dateTimeText date (secs % 86400).toNat (fractionMillis nanos))) := by
  obtain ⟨hlo, hhi⟩ := h
  obtain ⟨date, hday, htext⟩ := @formatRfc3339_layout ε secs (by omega) (by omega) nanos
  have hyear := year_of_inShortYears ⟨hlo, hhi⟩ hday
  exact ⟨date, hday, htext _ (padded_of_nonneg 4 hyear.1)⟩

theorem writtenMillis_lt (millis : ℤ) : ∀ n ∈ writtenMillis millis, n < 1000 := by
  intro n hn
  rw [writtenMillis] at hn
  split at hn <;> cases hn
  omega

theorem endsBefore_writtenMillis_iff (m m' : ℤ) :
    EndsBefore (writtenMillis m) (writtenMillis m') ↔
      m % 1000 ≠ 0 ∧ (m' % 1000 = 0 ∨ m % 1000 < m' % 1000) := by
  rw [writtenMillis, writtenMillis]
  by_cases h : m % 1000 = 0
  · rw [if_pos h]
    exact iff_of_false id fun hn => hn.1 h
  · by_cases h' : m' % 1000 = 0
    · rw [if_neg h, if_pos h']
      exact iff_of_true trivial ⟨h, .inl h'⟩
    · rw [if_neg h, if_neg h', EndsBefore]
      omega

theorem epochMillisToRfc3339_eq {millis : ℤ} (h : InShortYears (millis / 1000)) :
    ∃ date : CivilDate, date.dayNumber = millis / 1000 / 86400 ∧
      (epochMillisToRfc3339 millis : Outcome ε String) = .ok (String.ofList (dateTimeText date
        (millis / 1000 % 86400).toNat (writtenMillis millis))) := by
  rw [epochMillisToRfc3339_eq_format, ← fractionMillis_remainder]
  exact formatRfc3339_eq h _

/-- Two texts are compared by their seconds and then by their endings. -/
theorem text_lt_iff {secs secs' : ℤ} (h : InShortYears secs) (h' : InShortYears secs')
    {date date' : CivilDate} (hday : date.dayNumber = secs / 86400)
    (hday' : date'.dayNumber = secs' / 86400) {ms ms' : Option ℕ} (hms : ∀ n ∈ ms, n < 1000)
    (hms' : ∀ n ∈ ms', n < 1000) :
    String.ofList (dateTimeText date (secs % 86400).toNat ms) <
        String.ofList (dateTimeText date' (secs' % 86400).toNat ms') ↔
      secs < secs' ∨ secs = secs' ∧ EndsBefore ms ms' := by
  have hsecs (s : ℤ) : s / 86400 * 86400 + ((s % 86400).toNat : ℤ) = s := by omega
  rw [String.lt_iff, String.toList_ofList, String.toList_ofList,
    dateTimeText_lt_iff (year_of_inShortYears h hday) (year_of_inShortYears h' hday') (by omega)
      (by omega) hms hms', hday, hday', hsecs, hsecs]

/-- Rendered dates sort as the instants do, in the years from 0 to 9999: texts of seconds
without exception, and texts of milliseconds except that a whole second comes after the rest of
it. -/
theorem rendered_dates_sort :
    (∀ secs secs' : Int64, InShortYears secs.toInt → InShortYears secs'.toInt → ∃ text text',
      (epochSecsToRfc3339 secs.toInt : Outcome ε String) = .ok text ∧
      (epochSecsToRfc3339 secs'.toInt : Outcome ε String) = .ok text' ∧
      (text < text' ↔ secs < secs')) ∧
    ∀ millis millis' : Int64, InShortYears (millis.toInt / 1000) →
      InShortYears (millis'.toInt / 1000) → ∃ text text',
      (epochMillisToRfc3339 millis.toInt : Outcome ε String) = .ok text ∧
      (epochMillisToRfc3339 millis'.toInt : Outcome ε String) = .ok text' ∧
      (text < text' ↔ millis.toInt / 1000 < millis'.toInt / 1000 ∨
        millis.toInt / 1000 = millis'.toInt / 1000 ∧ millis.toInt % 1000 ≠ 0 ∧
          (millis'.toInt % 1000 = 0 ∨ millis.toInt % 1000 < millis'.toInt % 1000)) := by
  constructor
  · intro secs secs' h h'
    obtain ⟨date, hday, htext⟩ := formatRfc3339_eq (ε := ε) h 0
    obtain ⟨date', hday', htext'⟩ := formatRfc3339_eq (ε := ε) h' 0
    refine ⟨_, _, htext, htext', ?_⟩
    rw [fractionMillis, if_pos rfl, text_lt_iff h h' hday hday' (by simp) (by simp),
      Int64.lt_iff_toInt_lt]
    exact or_iff_left fun hends => hends.2
  · intro millis millis' h h'
    obtain ⟨date, hday, htext⟩ := epochMillisToRfc3339_eq (ε := ε) h
    obtain ⟨date', hday', htext'⟩ := epochMillisToRfc3339_eq (ε := ε) h'
    refine ⟨_, _, htext, htext', ?_⟩
    rw [text_lt_iff h h' hday hday' (writtenMillis_lt _) (writtenMillis_lt _),
      endsBefore_writtenMillis_iff]

/-- The middle of a second comes before its beginning. -/
theorem rendered_dates_sort_firstSecond : ∃ text text',
    (epochMillisToRfc3339 (1500 : Int64).toInt : Outcome Empty String) = .ok text ∧
    (epochMillisToRfc3339 (1000 : Int64).toInt : Outcome Empty String) = .ok text' ∧
    text < text' := by
  obtain ⟨text, text', h, h', hlt⟩ := rendered_dates_sort.2 1500 1000 ⟨by decide, by decide⟩
    ⟨by decide, by decide⟩
  exact ⟨text, text', h, h', hlt.mpr (by decide)⟩

end VgiBson.DateOrder
