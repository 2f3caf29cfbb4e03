import Mathlib.Algebra.Order.Field.Rat
import Mathlib.Data.Nat.Notation
import Mathlib.Tactic.FieldSimp
import Mathlib.Tactic.Ring

/-! # Decimal numerals

Digit strings and plain decimal literals, with the numbers that they denote. -/

namespace VgiBson.DecimalNumerals

/-- Only decimal digits. -/
def Digits (l : List Char) : Prop := ∀ c ∈ l, c.isDigit = true

/-- The number that a digit string denotes. -/
def digitsValue (l : List Char) : ℕ := Nat.ofDigitChars 10 l 0

theorem digits_toDigits (n : ℕ) : Digits (Nat.toDigits 10 n) := by
  intro c hc
  exact Nat.isDigit_of_mem_toDigits (by decide) (by decide) hc

theorem digits_zeros (n : ℕ) : Digits (List.replicate n '0') := by
  intro c hc
  rw [List.eq_of_mem_replicate hc]
  rfl

theorem digits_append {l m : List Char} : Digits (l ++ m) ↔ Digits l ∧ Digits m := by
  simp [Digits, or_imp, forall_and]

theorem Digits.take {l : List Char} (h : Digits l) (n : ℕ) : Digits (l.take n) :=
  fun c hc => h c (List.mem_of_mem_take hc)

theorem Digits.drop {l : List Char} (h : Digits l) (n : ℕ) : Digits (l.drop n) :=
  fun c hc => h c (List.mem_of_mem_drop hc)

theorem Digits.ascii {l : List Char} (h : Digits l) : ∀ c ∈ l, c.toNat < 128 := by
  intro c hc
  have hd := h c hc
  simp only [Char.isDigit, ge_iff_le, Bool.and_eq_true, decide_eq_true_eq, UInt32.le_iff_toNat_le]
    at hd
  have hle : c.toNat ≤ 57 := hd.2
  omega

@[simp] theorem digitsValue_nil : digitsValue [] = 0 := by simp [digitsValue]

@[simp] theorem digitsValue_toDigits (n : ℕ) : digitsValue (Nat.toDigits 10 n) = n :=
  Nat.ofDigitChars_ten_toDigits

@[simp] theorem digitsValue_zeros (n : ℕ) : digitsValue (List.replicate n '0') = 0 := by
  simp [digitsValue]

theorem digitsValue_append (l m : List Char) :
    digitsValue (l ++ m) = 10 ^ m.length * digitsValue l + digitsValue m := by
  rw [digitsValue, Nat.ofDigitChars_append, Nat.ofDigitChars_eq_ofDigitChars_zero]
  rfl

/-- A number with zeros in front. -/
theorem digitsValue_padded (k n : ℕ) :
    digitsValue (List.replicate k '0' ++ Nat.toDigits 10 n) = n := by
  rw [digitsValue_append, digitsValue_zeros, digitsValue_toDigits, Nat.mul_zero, Nat.zero_add]

theorem digitsValue_cons (c : Char) (l : List Char) :
    digitsValue (c :: l) = 10 ^ l.length * (c.toNat - '0'.toNat) + digitsValue l := by
  rw [digitsValue, Nat.ofDigitChars_cons, Nat.ofDigitChars_eq_ofDigitChars_zero, Nat.mul_zero,
    Nat.zero_add]
  rfl

theorem isDigit_iff {c : Char} : c.isDigit = true ↔ '0'.toNat ≤ c.toNat ∧ c.toNat ≤ '9'.toNat := by
  simp only [Char.isDigit, ge_iff_le, Bool.and_eq_true, decide_eq_true_eq, UInt32.le_iff_toNat_le]
  rfl

theorem digitsValue_lt {l : List Char} (h : Digits l) : digitsValue l < 10 ^ l.length := by
  induction l with
  | nil => simp
  | cons c l ih =>
    simp only [Digits, List.mem_cons, forall_eq_or_imp] at h
    have hrest := ih h.2
    have hdigit : c.toNat - '0'.toNat ≤ 9 := by
      have hle : c.toNat ≤ 57 := (isDigit_iff.mp h.1).2
      have hzero : '0'.toNat = 48 := rfl
      omega
    have hmul := Nat.mul_le_mul_left (10 ^ l.length) hdigit
    rw [digitsValue_cons, List.length_cons, Nat.pow_succ]
    omega

/-- Digit strings of one length are ordered as their numbers are. -/
theorem digits_lt_iff {l m : List Char} (hl : Digits l) (hm : Digits m)
    (hlen : l.length = m.length) : l < m ↔ digitsValue l < digitsValue m := by
  induction l generalizing m with
  | nil =>
    obtain rfl := List.length_eq_zero_iff.mp hlen.symm
    simp
  | cons c l ih =>
    cases m with
    | nil => cases hlen
    | cons d m =>
      simp only [Digits, List.mem_cons, forall_eq_or_imp] at hl hm
      rw [List.length_cons, List.length_cons, Nat.add_right_cancel_iff] at hlen
      have hrest := ih hl.2 hm.2 hlen
      have hv := digitsValue_lt hl.2
      have hw := digitsValue_lt hm.2
      have hc := (isDigit_iff.mp hl.1).1
      have hd := (isDigit_iff.mp hm.1).1
      have hlt : c < d ↔ c.toNat < d.toNat := by
        rw [Char.lt_def, UInt32.lt_iff_toNat_lt]
        rfl
      rw [List.cons_lt_cons_iff, hrest, digitsValue_cons, digitsValue_cons, hlen, hlt]
      rw [hlen] at hv
      rcases Nat.lt_trichotomy c.toNat d.toNat with h | h | h
      · have hmul := Nat.mul_le_mul_left (10 ^ m.length)
          (by omega : c.toNat - '0'.toNat + 1 ≤ d.toNat - '0'.toNat)
        rw [Nat.mul_succ] at hmul
        refine iff_of_true (.inl h) ?_
        omega
      · obtain rfl := Char.toNat_inj.mp h
        simp
      · have hmul := Nat.mul_le_mul_left (10 ^ m.length)
          (by omega : d.toNat - '0'.toNat + 1 ≤ c.toNat - '0'.toNat)
        rw [Nat.mul_succ] at hmul
        refine iff_of_false ?_ ?_
        · rintro (hcd | ⟨rfl, -⟩) <;> omega
        · omega

/-- The digits in front of a character that is none are found again. -/
theorem span_digits {l m : List Char} (hl : Digits l) (hm : ∀ c ∈ m.head?, c.isDigit = false) :
    (l ++ m).span Char.isDigit = (l, m) := by
  rw [List.span_eq_takeWhile_dropWhile]
  have hnone : m.takeWhile Char.isDigit = [] ∧ m.dropWhile Char.isDigit = m := by
    cases m with
    | nil => simp
    | cons c m => simp [hm c rfl]
  rw [List.takeWhile_append_of_pos hl, List.dropWhile_append_of_pos hl, hnone.1, hnone.2,
    List.append_nil]

/-- A literal: a sign or none, digits, and, after a point, more digits or none of both. -/
structure DecimalLiteral where
  negative : Bool
  whole : List Char
  fraction : List Char
  whole_ne_nil : whole ≠ []
  digits_whole : Digits whole
  digits_fraction : Digits fraction

namespace DecimalLiteral

def text (x : DecimalLiteral) : String :=
  String.ofList ((if x.negative then ['-'] else []) ++ x.whole ++
    (if x.fraction = [] then [] else '.' :: x.fraction))

/-- The digits without the point. -/
def coefficient (x : DecimalLiteral) : ℕ := digitsValue (x.whole ++ x.fraction)

/-- The rational number that the literal denotes. -/
def value (x : DecimalLiteral) : ℚ :=
  (if x.negative then -1 else 1 : ℚ) * x.coefficient / 10 ^ x.fraction.length

/-- The literal with the given digits, of which the last `scale` stand after the point. -/
def ofDigits (negative : Bool) {l : List Char} (hl : Digits l) {scale : ℕ}
    (h : scale < l.length) : DecimalLiteral where
  negative
  whole := l.take (l.length - scale)
  fraction := l.drop (l.length - scale)
  whole_ne_nil hnil := by
    have hlen := congrArg List.length hnil
    rw [List.length_take, List.length_nil] at hlen
    omega
  digits_whole := hl.take _
  digits_fraction := hl.drop _

section ofDigits

variable {negative : Bool} {l : List Char} {hl : Digits l} {scale : ℕ} {h : scale < l.length}

@[simp] theorem length_fraction_ofDigits : (ofDigits negative hl h).fraction.length = scale := by
  simp only [ofDigits, List.length_drop]
  omega

theorem value_ofDigits : (ofDigits negative hl h).value =
    (if negative then -1 else 1 : ℚ) * digitsValue l / 10 ^ scale := by
  have hdigits : (ofDigits negative hl h).whole ++ (ofDigits negative hl h).fraction = l :=
    List.take_append_drop _ l
  rw [value, length_fraction_ofDigits, coefficient, hdigits]
  rfl

theorem text_ofDigits_of_pos (hs : 0 < scale) : (ofDigits negative hl h).text =
    String.ofList ((if negative then ['-'] else []) ++ l.take (l.length - scale) ++
      '.' :: l.drop (l.length - scale)) := by
  have hne : (ofDigits negative hl h).fraction ≠ [] := by
    rw [← List.length_pos_iff, length_fraction_ofDigits]
    exact hs
  rw [text, if_neg hne]
  rfl

end ofDigits

theorem text_ofDigits_zero {negative : Bool} {l : List Char} {hl : Digits l} {h : 0 < l.length} :
    (ofDigits negative hl h).text = String.ofList ((if negative then ['-'] else []) ++ l) := by
  have hnil : (ofDigits negative hl h).fraction = [] := by
    rw [← List.length_eq_zero_iff, length_fraction_ofDigits]
  rw [text, if_pos hnil]
  simp only [ofDigits, Nat.sub_zero, List.take_length, List.append_nil]

/-- Take a literal apart at its sign and its point. -/
def read (s : String) : Bool × List Char × List Char :=
  let unsigned := match s.toList with
    | '-' :: l => (true, l)
    | l => (false, l)
  let parts := unsigned.2.span Char.isDigit
  (unsigned.1, parts.1, parts.2.tail)

theorem read_text (x : DecimalLiteral) : read x.text = (x.negative, x.whole, x.fraction) := by
  obtain ⟨negative, whole, fraction, hne, hwhole, hfraction⟩ := x
  have hspan : (whole ++ (if fraction = [] then [] else '.' :: fraction)).span Char.isDigit =
      (whole, if fraction = [] then [] else '.' :: fraction) := by
    apply span_digits hwhole
    intro c hc
    split at hc
    · cases hc
    · cases hc
      rfl
  have htail : (if fraction = [] then [] else '.' :: fraction).tail = fraction := by
    split
    · next h => rw [h, List.tail_nil]
    · rfl
  cases negative with
  | true =>
    simp only [read, text, if_true, String.toList_ofList, List.cons_append, List.nil_append]
    rw [hspan, htail]
  | false =>
    cases whole with
    | nil => exact absurd rfl hne
    | cons c whole =>
      have hc : c ≠ '-' := by
        rintro rfl
        exact absurd (hwhole '-' List.mem_cons_self) (by decide)
      simp only [read, text, Bool.false_eq_true, if_false, List.nil_append, String.toList_ofList]
      split
      · next h => exact absurd (List.cons.inj h).1 hc
      · rw [hspan, htail]

/-- A text is that of one literal only. -/
theorem text_injective : Function.Injective text := by
  intro x y h
  have hread := congrArg read h
  rw [read_text, read_text] at hread
  cases x
  cases y
  simp only [Prod.mk.injEq] at hread
  obtain ⟨rfl, rfl, rfl⟩ := hread
  rfl

end DecimalLiteral

end VgiBson.DecimalNumerals
