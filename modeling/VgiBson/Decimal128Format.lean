import Mathlib.Algebra.Order.Field.Rat
import Mathlib.Algebra.Order.Ring.Int
import Mathlib.Data.Nat.Notation
import Mathlib.Tactic.Positivity
import Mathlib.Tactic.Ring

/-! # 128-bit decimal floating point

The binary integer decimal encoding: a sign bit, an exponent with a bias and a coefficient of at
most 34 digits, in little-endian bytes. -/

namespace VgiBson.Decimal128Format

/-- The number that little-endian bytes denote. -/
def word : List UInt8 → ℕ
  | [] => 0
  | b :: bs => b.toNat + 256 * word bs

/-- The `k` low bytes of a number. -/
def lowBytes : (k : ℕ) → ℕ → List UInt8
  | 0, _ => []
  | k + 1, n => UInt8.ofNat n :: lowBytes k (n / 256)

@[simp] theorem length_lowBytes (k n : ℕ) : (lowBytes k n).length = k := by
  induction k generalizing n with
  | zero => rfl
  | succ k ih => simp [lowBytes, ih]

theorem word_lowBytes (k n : ℕ) : word (lowBytes k n) = n % 256 ^ k := by
  induction k generalizing n with
  | zero => simp [lowBytes, word, Nat.mod_one]
  | succ k ih =>
    simp only [lowBytes, word, ih, UInt8.toNat_ofNat', Nat.pow_succ']
    exact (Nat.mod_mul).symm

/-- The bound on coefficients. -/
def coefficientBound : ℕ := 10 ^ 34

/-- The rational number that the bytes denote; none for infinities and not-a-numbers. A coefficient
past the bound counts as zero. -/
def decimalValue (d : Vector UInt8 16) : Option ℚ :=
  let n := word d.toList
  let sign : ℚ := if n / 2 ^ 127 % 2 = 1 then -1 else 1
  let exponent : ℤ := (n / 2 ^ 113 % 2 ^ 14 : ℕ) - 6176
  let coefficient := n % 2 ^ 113
  if 30 ≤ n / 2 ^ 122 % 2 ^ 5 then none
  else if n / 2 ^ 125 % 2 ^ 2 = 3 then some 0
  else if coefficientBound ≤ coefficient then some 0
  else some (sign * coefficient * 10 ^ exponent)

/-- A number with a coefficient below the bound and an exponent in range. -/
def Representable (q : ℚ) : Prop :=
  ∃ m e : ℤ, |m| < coefficientBound ∧ -6176 ≤ e ∧ e ≤ 6111 ∧ q = m * 10 ^ e

/-- The encoding with the given sign, coefficient and biased exponent. -/
def encode (negative : Bool) (coefficient exponent : ℕ) : Vector UInt8 16 :=
  ⟨(lowBytes 16 ((if negative then 2 ^ 127 else 0) + exponent * 2 ^ 113 + coefficient)).toArray,
    by simp⟩

theorem word_encode {negative : Bool} {coefficient exponent : ℕ}
    (hc : coefficient < coefficientBound) (he : exponent ≤ 12287) :
    word (encode negative coefficient exponent).toList =
      (if negative then 2 ^ 127 else 0) + exponent * 2 ^ 113 + coefficient := by
  simp only [coefficientBound] at hc
  simp only [encode, Vector.toList_mk, word_lowBytes]
  apply Nat.mod_eq_of_lt
  split <;> omega

/-- The fields of a number are found at their places. -/
theorem fields_of_sum {s e c n : ℕ} (hs : s < 2) (he : e ≤ 12287) (hc : c < 2 ^ 113)
    (hn : n = s * 2 ^ 127 + e * 2 ^ 113 + c) :
    n / 2 ^ 127 % 2 = s ∧ n / 2 ^ 113 % 2 ^ 14 = e ∧ n % 2 ^ 113 = c ∧
      n / 2 ^ 122 % 2 ^ 5 < 30 ∧ n / 2 ^ 125 % 2 ^ 2 ≠ 3 := by
  subst hn
  refine ⟨?_, ?_, ?_, ?_, ?_⟩ <;> omega

theorem decimalValue_encode (negative : Bool) {coefficient exponent : ℕ}
    (hc : coefficient < coefficientBound) (he : exponent ≤ 12287) :
    decimalValue (encode negative coefficient exponent) =
      some ((if negative then -1 else 1 : ℚ) * coefficient * 10 ^ ((exponent : ℤ) - 6176)) := by
  have hc' : coefficient < 2 ^ 113 := hc.trans (by decide)
  have hsum : word (encode negative coefficient exponent).toList =
      negative.toNat * 2 ^ 127 + exponent * 2 ^ 113 + coefficient := by
    rw [word_encode hc he]
    cases negative <;> simp
  obtain ⟨hs, hexp, hcoef, hfin, hform⟩ := fields_of_sum negative.toNat_lt he hc' hsum
  simp only [decimalValue, hs, hexp, hcoef, if_neg (Nat.not_le.mpr hfin), if_neg hform,
    if_neg (Nat.not_le.mpr hc)]
  cases negative <;> simp

/-- A representable number by sign, coefficient and biased exponent. -/
theorem representable_iff_fields {q : ℚ} :
    Representable q ↔ ∃ (negative : Bool) (c e : ℕ), c < coefficientBound ∧ e ≤ 12287 ∧
      q = (if negative then -1 else 1 : ℚ) * c * 10 ^ ((e : ℤ) - 6176) := by
  constructor
  · intro h
    obtain ⟨m, e, hm, hlo, hhi, rfl⟩ := h
    have he : (((e + 6176).toNat : ℕ) : ℤ) - 6176 = e := by omega
    have hbound : m.natAbs < coefficientBound := by
      rw [Int.abs_eq_natAbs] at hm
      exact_mod_cast hm
    refine ⟨decide (m < 0), m.natAbs, (e + 6176).toNat, hbound, by omega, ?_⟩
    rw [he]
    by_cases hneg : m < 0
    · have habs : (m.natAbs : ℚ) = -m := by rw [Nat.cast_natAbs, abs_of_neg hneg, Int.cast_neg]
      simp [hneg, habs]
    · have habs : (m.natAbs : ℚ) = m := by rw [Nat.cast_natAbs, abs_of_nonneg (not_lt.mp hneg)]
      simp [hneg, habs]
  · intro h
    obtain ⟨negative, c, e, hc, he, rfl⟩ := h
    have hc' : (c : ℤ) < coefficientBound := by exact_mod_cast hc
    cases negative with
    | false =>
      refine ⟨c, (e : ℤ) - 6176, ?_, by omega, by omega, by simp⟩
      rw [abs_of_nonneg (Int.natCast_nonneg c)]
      exact hc'
    | true =>
      refine ⟨-c, (e : ℤ) - 6176, ?_, by omega, by omega, by simp⟩
      rw [abs_neg, abs_of_nonneg (Int.natCast_nonneg c)]
      exact hc'

theorem representable_iff (q : ℚ) : Representable q ↔ ∃ d, decimalValue d = some q := by
  rw [representable_iff_fields]
  constructor
  · intro h
    obtain ⟨negative, c, e, hc, he, rfl⟩ := h
    exact ⟨encode negative c e, decimalValue_encode negative hc he⟩
  · intro h
    obtain ⟨d, hd⟩ := h
    have hzero : ∃ (negative : Bool) (c e : ℕ), c < coefficientBound ∧ e ≤ 12287 ∧
        (0 : ℚ) = (if negative then -1 else 1 : ℚ) * c * 10 ^ ((e : ℤ) - 6176) :=
      ⟨false, 0, 0, by decide, by decide, by simp⟩
    simp only [decimalValue] at hd
    split at hd
    · cases hd
    split at hd
    · obtain rfl := Option.some.inj hd
      exact hzero
    split at hd
    · obtain rfl := Option.some.inj hd
      exact hzero
    · next hform hcoef =>
      refine ⟨decide (word d.toList / 2 ^ 127 % 2 = 1), word d.toList % 2 ^ 113,
        word d.toList / 2 ^ 113 % 2 ^ 14, Nat.not_le.mp hcoef, by omega, ?_⟩
      rw [← Option.some.inj hd]
      simp only [decide_eq_true_eq]

/-- At most 34 significant digits, not counting zeros at the end. -/
def FitsDigits (raw : ℤ) : Prop := ∃ (m : ℤ) (k : ℕ), |m| < coefficientBound ∧ raw = m * 10 ^ k

theorem FitsDigits.representable {raw scale : ℤ} (h : FitsDigits raw) (hraw : |raw| < 10 ^ 39)
    (hlo : -128 ≤ scale) (hhi : scale ≤ 127) : Representable (raw * 10 ^ (-scale)) := by
  obtain ⟨m, k, hm, rfl⟩ := h
  by_cases hzero : m = 0
  · subst hzero
    exact ⟨0, 0, hm, by decide, by decide, by simp⟩
  · have hone : 1 ≤ |m| := Int.one_le_abs hzero
    have hpow : (10 : ℤ) ^ k < 10 ^ 39 := by
      rw [abs_mul, abs_of_nonneg (by positivity : (0 : ℤ) ≤ 10 ^ k)] at hraw
      exact (le_mul_of_one_le_left (by positivity) hone).trans_lt hraw
    have hk : k < 39 := (pow_lt_pow_iff_right₀ (by decide : (1 : ℤ) < 10)).mp hpow
    refine ⟨m, k - scale, hm, by omega, by omega, ?_⟩
    rw [sub_eq_add_neg, zpow_add₀ (by decide : (10 : ℚ) ≠ 0), zpow_natCast]
    push_cast
    ring

theorem fitsDigits_of_representable {raw scale : ℤ}
    (h : Representable (raw * 10 ^ (-scale))) : FitsDigits raw := by
  obtain ⟨m, e, hm, -, -, heq⟩ := h
  have hten : (10 : ℚ) ≠ 0 := by decide
  have hraw : (raw : ℚ) = m * 10 ^ (e + scale) := by
    rw [zpow_add₀ hten, ← mul_assoc, ← heq, mul_assoc, ← zpow_add₀ hten, neg_add_cancel,
      zpow_zero, mul_one]
  rcases Int.le_total 0 (e + scale) with hpos | hneg
  · obtain ⟨k, hk⟩ := Int.eq_ofNat_of_zero_le hpos
    rw [hk] at hraw
    exact ⟨m, k, hm, by exact_mod_cast hraw⟩
  · -- a negative power: the number itself is no greater than its coefficient
    obtain ⟨k, hk⟩ := Int.eq_ofNat_of_zero_le (neg_nonneg.mpr hneg)
    have hmul : raw * 10 ^ k = m := by
      have hq : (raw : ℚ) * 10 ^ (k : ℤ) = m := by
        have hadd : e + scale + k = 0 := by omega
        rw [hraw, mul_assoc, ← zpow_add₀ hten, hadd, zpow_zero, mul_one]
      exact_mod_cast hq
    refine ⟨raw, 0, lt_of_le_of_lt ?_ hm, by simp⟩
    rw [← hmul, abs_mul, abs_of_nonneg (by positivity : (0 : ℤ) ≤ 10 ^ k)]
    exact le_mul_of_one_le_right (abs_nonneg raw) (one_le_pow₀ (by decide))

/-- A number past the bound needs all its digits when the last one is not zero. -/
theorem not_fitsDigits_of_not_dvd {raw : ℤ} (hraw : coefficientBound ≤ |raw|) (h : ¬ 10 ∣ raw) :
    ¬ FitsDigits raw := by
  intro hfits
  obtain ⟨m, k, hm, rfl⟩ := hfits
  cases k with
  | zero =>
    rw [pow_zero, mul_one] at hraw
    exact absurd hm (not_lt.mpr hraw)
  | succ k => exact h ⟨m * 10 ^ k, by ring⟩

end VgiBson.Decimal128Format
