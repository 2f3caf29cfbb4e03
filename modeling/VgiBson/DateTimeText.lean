import VgiBson.DecimalNumerals
import VgiBson.ProlepticCalendar

/-! # Reading date-times

A reader of date-times in the style of RFC 3339, for any year: a signed year, two numbers for the
rest of the date, three for the time of day, three digits after a point or none, and a final Z. -/

namespace VgiBson.DateTimeText

open DecimalNumerals ProlepticCalendar

def CivilDate.ofFields (year : ℤ) (month day : ℕ) : Option CivilDate :=
  if h : 1 ≤ month ∧ month ≤ 12 ∧ 1 ≤ day ∧ day ≤ monthLength (isLeap year) month then
    some ⟨year, month, day, h.1, h.2.1, h.2.2.1, h.2.2.2⟩
  else none

def CivilDateTime.ofFields (date : CivilDate) (hour minute second : ℕ)
    (millisecond : Option ℕ) : Option CivilDateTime :=
  if h : hour < 24 ∧ minute < 60 ∧ second < 60 ∧ ∀ ms ∈ millisecond, ms < 1000 then
    some ⟨date, hour, minute, second, millisecond, h.1, h.2.1, h.2.2.1, h.2.2.2⟩
  else none

theorem ofFields_date (c : CivilDate) : CivilDate.ofFields c.year c.month c.day = some c :=
  dif_pos ⟨c.month_pos, c.month_le, c.day_pos, c.day_le⟩

theorem ofFields_dateTime (c : CivilDateTime) :
    CivilDateTime.ofFields c.date c.hour c.minute c.second c.millisecond = some c :=
  dif_pos ⟨c.hour_lt, c.minute_lt, c.second_lt, c.millisecond_lt⟩

/-- Digits, at least one, and what follows them. -/
def readDigits (l : List Char) : Option (List Char × List Char) :=
  let parts := l.span Char.isDigit
  if parts.1 = [] then none else some parts

def readNumber (l : List Char) : Option (ℕ × List Char) :=
  (readDigits l).map fun p => (digitsValue p.1, p.2)

/-- A number with a minus sign in front or none. -/
def readSigned : List Char → Option (ℤ × List Char)
  | '-' :: l => (readNumber l).map fun p => (-(p.1 : ℤ), p.2)
  | l => (readNumber l).map fun p => ((p.1 : ℤ), p.2)

def expect (c : Char) : List Char → Option (List Char)
  | [] => none
  | d :: l => if d = c then some l else none

/-- A point and three digits, or nothing. -/
def readFraction : List Char → Option (Option ℕ × List Char)
  | '.' :: l => do
    let (ds, l) ← readDigits l
    if ds.length = 3 then some (some (digitsValue ds), l) else none
  | l => some (none, l)

def readDateTime (text : String) : Option CivilDateTime := do
  let (year, l) ← readSigned text.toList
  let l ← expect '-' l
  let (month, l) ← readNumber l
  let l ← expect '-' l
  let (day, l) ← readNumber l
  let l ← expect 'T' l
  let (hour, l) ← readNumber l
  let l ← expect ':' l
  let (minute, l) ← readNumber l
  let l ← expect ':' l
  let (second, l) ← readNumber l
  let (millisecond, l) ← readFraction l
  let l ← expect 'Z' l
  if l ≠ [] then none else
  let date ← CivilDate.ofFields year month day
  CivilDateTime.ofFields date hour minute second millisecond

section Parts

variable {ds l : List Char} {c : Char}

theorem readDigits_append (hds : Digits ds) (hne : ds ≠ []) (hc : c.isDigit = false) :
    readDigits (ds ++ c :: l) = some (ds, c :: l) := by
  have hspan : (ds ++ c :: l).span Char.isDigit = (ds, c :: l) := by
    apply span_digits hds
    intro c' hc'
    cases hc'
    exact hc
  rw [readDigits, hspan]
  exact if_neg hne

theorem readNumber_append (hds : Digits ds) (hne : ds ≠ []) (hc : c.isDigit = false) :
    readNumber (ds ++ c :: l) = some (digitsValue ds, c :: l) := by
  rw [readNumber, readDigits_append hds hne hc]
  rfl

/-- A number with digits `ds`, written with a sign exactly when it is negative. -/
theorem readSigned_append {i : ℤ} (hds : Digits ds) (hne : ds ≠ []) (hc : c.isDigit = false)
    (hi : digitsValue ds = i.natAbs) :
    readSigned ((if i < 0 then ['-'] else []) ++ ds ++ c :: l) = some (i, c :: l) := by
  by_cases hneg : i < 0
  · rw [if_pos hneg, List.append_assoc, List.singleton_append, readSigned,
      readNumber_append hds hne hc, hi]
    have hval : -(i.natAbs : ℤ) = i := by omega
    rw [Option.map_some, hval]
  · rw [if_neg hneg, List.nil_append]
    have hval : (i.natAbs : ℤ) = i := by omega
    have hread := @readNumber_append ds l c hds hne hc
    cases ds with
    | nil => exact absurd rfl hne
    | cons d ds =>
      have hd : d ≠ '-' := by
        rintro rfl
        exact absurd (hds '-' List.mem_cons_self) (by decide)
      rw [List.cons_append] at hread ⊢
      unfold readSigned
      split
      · next heq => exact absurd (List.cons.inj heq).1 hd
      · rw [hread, hi, Option.map_some, hval]

theorem expect_cons : expect c (c :: l) = some l := if_pos rfl

theorem some_bind {α β : Type} (a : α) (f : α → Option β) : (some a >>= f) = f a := rfl

end Parts

/-- The end of a text: the digits after the point if there are any, and the Z. -/
def ending : Option (List Char) → List Char
  | none => ['Z']
  | some ds => '.' :: (ds ++ ['Z'])

/-- The text with the given digits. -/
def layout (year month day hour minute second : List Char) (fraction : Option (List Char)) :
    List Char :=
  year ++ '-' :: (month ++ '-' :: (day ++ 'T' :: (hour ++ ':' :: (minute ++ ':' ::
    (second ++ ending fraction)))))

/-- Digits that spell a number. -/
structure Spells (ds : List Char) (n : ℕ) : Prop where
  digits : Digits ds
  ne_nil : ds ≠ []
  value : digitsValue ds = n

theorem Spells.read {ds l : List Char} {n : ℕ} {c : Char} (h : Spells ds n)
    (hc : c.isDigit = false) : readNumber (ds ++ c :: l) = some (n, c :: l) := by
  rw [readNumber_append h.digits h.ne_nil hc, h.value]

theorem Spells.read_ending {ds : List Char} {n : ℕ} (h : Spells ds n)
    (fraction : Option (List Char)) :
    readNumber (ds ++ ending fraction) = some (n, ending fraction) := by
  cases fraction with
  | none => exact h.read rfl
  | some ds => exact h.read rfl

theorem readFraction_ending {fraction : Option (List Char)}
    (hthree : ∀ ds ∈ fraction, Digits ds ∧ ds.length = 3) :
    readFraction (ending fraction) = some (fraction.map digitsValue, ['Z']) := by
  cases fraction with
  | none => rfl
  | some ds =>
    obtain ⟨hds, hlen⟩ := hthree ds rfl
    have hne : ds ≠ [] := by
      rintro rfl
      cases hlen
    rw [ending, readFraction, readDigits_append hds hne rfl]
    simp [hlen]

/-- A text with the digits of the fields reads back as the fields. -/
theorem readDateTime_layout (c : CivilDateTime) {year month day hour minute second : List Char}
    {fraction : Option (List Char)} (hyear : Spells year c.date.year.natAbs)
    (hmonth : Spells month c.date.month) (hday : Spells day c.date.day)
    (hhour : Spells hour c.hour) (hminute : Spells minute c.minute)
    (hsecond : Spells second c.second) (hfraction : fraction.map digitsValue = c.millisecond)
    (hthree : ∀ ds ∈ fraction, Digits ds ∧ ds.length = 3) :
    readDateTime (String.ofList (layout ((if c.date.year < 0 then ['-'] else []) ++ year) month day
      hour minute second fraction)) = some c := by
  have hdash : '-'.isDigit = false := rfl
  have htee : 'T'.isDigit = false := rfl
  have hcolon : ':'.isDigit = false := rfl
  rw [readDateTime, String.toList_ofList, layout,
    readSigned_append hyear.digits hyear.ne_nil hdash hyear.value, some_bind]
  dsimp only
  rw [expect_cons, some_bind, hmonth.read hdash, some_bind]
  dsimp only
  rw [expect_cons, some_bind, hday.read htee, some_bind]
  dsimp only
  rw [expect_cons, some_bind, hhour.read hcolon, some_bind]
  dsimp only
  rw [expect_cons, some_bind, hminute.read hcolon, some_bind]
  dsimp only
  rw [expect_cons, some_bind, hsecond.read_ending, some_bind]
  dsimp only
  rw [readFraction_ending hthree, some_bind]
  dsimp only
  rw [expect_cons, some_bind, if_neg (not_not.mpr rfl), hfraction, ofFields_date, some_bind,
    ofFields_dateTime]

/-- A character of a pattern: a zero stands for any digit, another character for itself. -/
def Fits (p c : Char) : Prop := if p = '0' then c.isDigit = true else c = p

/-- The shape of the texts for the years from 0 to 9999. -/
def FixedShape (fraction : Bool) (text : String) : Prop :=
  List.Forall₂ Fits
    (if fraction then "0000-00-00T00:00:00.000Z" else "0000-00-00T00:00:00Z").toList text.toList

theorem fits_digits {ds : List Char} {n : ℕ} (h : Digits ds) (hlen : ds.length = n) :
    List.Forall₂ Fits (List.replicate n '0') ds := by
  subst hlen
  induction ds with
  | nil => exact .nil
  | cons d ds ih =>
    simp only [Digits, List.mem_cons, forall_eq_or_imp] at h
    exact .cons h.1 (ih h.2)

theorem fits_self {c : Char} (hc : c ≠ '0') : Fits c c := by
  rw [Fits, if_neg hc]

/-- A character of the pattern that is no zero stands between two parts. -/
theorem fits_separated {ps qs ds l : List Char} {c : Char} (hc : c ≠ '0')
    (h : List.Forall₂ Fits ps ds) (h' : List.Forall₂ Fits qs l) :
    List.Forall₂ Fits (ps ++ c :: qs) (ds ++ c :: l) :=
  List.rel_append h (.cons (fits_self hc) h')

theorem fits_ending {fraction : Option (List Char)}
    (hthree : ∀ ds ∈ fraction, Digits ds ∧ ds.length = 3) :
    List.Forall₂ Fits (if fraction.isSome then ".000Z" else "Z").toList (ending fraction) := by
  have hzed : List.Forall₂ Fits ['Z'] ['Z'] := .cons (fits_self (by decide)) .nil
  cases fraction with
  | none => exact hzed
  | some ds =>
    obtain ⟨hds, hlen⟩ := hthree ds rfl
    have hpoint : '.' ≠ '0' := by decide
    have hpattern : ".000Z".toList = [] ++ '.' :: (List.replicate 3 '0' ++ ['Z']) := rfl
    rw [Option.isSome_some, if_pos rfl, hpattern]
    exact fits_separated hpoint .nil (List.rel_append (fits_digits hds hlen) hzed)

theorem fixedShape_layout {year month day hour minute second : List Char}
    {fraction : Option (List Char)} (hyear : Digits year ∧ year.length = 4)
    (hmonth : Digits month ∧ month.length = 2) (hday : Digits day ∧ day.length = 2)
    (hhour : Digits hour ∧ hour.length = 2) (hminute : Digits minute ∧ minute.length = 2)
    (hsecond : Digits second ∧ second.length = 2)
    (hthree : ∀ ds ∈ fraction, Digits ds ∧ ds.length = 3) : FixedShape fraction.isSome
      (String.ofList (layout year month day hour minute second fraction)) := by
  have hdash : '-' ≠ '0' := by decide
  have htee : 'T' ≠ '0' := by decide
  have hcolon : ':' ≠ '0' := by decide
  have hfits : List.Forall₂ Fits
      (List.replicate 4 '0' ++ '-' :: (List.replicate 2 '0' ++ '-' :: (List.replicate 2 '0' ++
        'T' :: (List.replicate 2 '0' ++ ':' :: (List.replicate 2 '0' ++ ':' ::
          (List.replicate 2 '0' ++ (if fraction.isSome then ".000Z" else "Z").toList))))))
      (layout year month day hour minute second fraction) :=
    fits_separated hdash (fits_digits hyear.1 hyear.2) <|
      fits_separated hdash (fits_digits hmonth.1 hmonth.2) <|
      fits_separated htee (fits_digits hday.1 hday.2) <|
      fits_separated hcolon (fits_digits hhour.1 hhour.2) <|
      fits_separated hcolon (fits_digits hminute.1 hminute.2) <|
      List.rel_append (fits_digits hsecond.1 hsecond.2) (fits_ending hthree)
  rw [FixedShape, String.toList_ofList]
  cases hsome : fraction.isSome with
  | false =>
    rw [hsome] at hfits
    exact hfits
  | true =>
    rw [hsome] at hfits
    exact hfits

end VgiBson.DateTimeText
