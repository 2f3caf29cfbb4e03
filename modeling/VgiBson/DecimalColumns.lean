import VgiBson.Decimal128Format
import VgiBson.DecimalNumerals
import VgiBson.EncodedDocuments

/-! # Decimal columns

The text of a scaled integer is a plain decimal literal of its exact value, and the decimal parsed
from that text is exact as far as the format's 34 digits go. -/

namespace VgiBson.DecimalColumns

open MachineBytes CursorWalks BsonValues DocumentDecoding CrateAssumptions ColumnEncoding
  EncodedDocuments DecimalNumerals Decimal128Format

variable {ε : Type}

/-- An integer as text: a sign if it is negative, and its digits. -/
theorem toString_int (i : ℤ) : toString i =
    String.ofList ((if decide (i < 0) = true then ['-'] else []) ++ Nat.toDigits 10 i.natAbs) := by
  rw [Int.toString_eq_repr, Int.repr_eq_if]
  by_cases h : 0 ≤ i
  · have hneg : ¬ i < 0 := by omega
    have habs : i.toNat = i.natAbs := by omega
    simp [h, hneg, habs, Nat.repr_eq_ofList_toDigits]
  · have hneg : i < 0 := by omega
    have habs : (-i).toNat = i.natAbs := by omega
    simp [h, hneg, habs, Nat.repr_eq_ofList_toDigits]

/-- A signed number from its sign and its magnitude. -/
theorem sign_mul_natAbs (i : ℤ) :
    (if decide (i < 0) = true then -1 else 1) * (i.natAbs : ℚ) = i := by
  by_cases h : i < 0
  · simp [h, Nat.cast_natAbs, abs_of_neg h]
  · simp [h, Nat.cast_natAbs, abs_of_nonneg (not_lt.mp h)]

theorem negI8_of_ne {x : Int8} (h : x ≠ Int8.minValue) :
    (negI8 x : Outcome ε Int8) = .ok (-x) ∧ (-x).toInt = -x.toInt := by
  have hne : x.toInt ≠ -128 := fun hx => h (Int8.toInt_inj.mp hx)
  have hlo := x.le_toInt
  have hhi := x.toInt_lt
  refine ⟨if_neg h, ?_⟩
  rw [Int8.toInt_neg, Int.bmod_eq_of_le] <;> omega

/-- Without digits after the point: zeros are appended. -/
theorem formatDecimal_of_nonpos (raw : I128) {scale : Int8} (hs : scale ≤ 0)
    (hmin : scale ≠ Int8.minValue) : ∃ x : DecimalLiteral,
      (formatDecimal raw scale : Outcome ε String) = .ok x.text ∧
        (x.fraction.length : ℤ) = max 0 scale.toInt ∧ x.value = raw.val * 10 ^ (-scale.toInt) := by
  obtain ⟨hneg, hval⟩ := negI8_of_ne (ε := ε) hmin
  have hs' : scale.toInt ≤ 0 := Int8.le_iff_toInt_le.mp hs
  have hlen : 0 < (Nat.toDigits 10 raw.val.natAbs ++
      List.replicate (-scale).toInt.toNat '0').length := by
    rw [List.length_append]
    exact Nat.add_pos_left Nat.length_toDigits_pos _
  refine ⟨.ofDigits (decide (raw.val < 0))
    (digits_append.mpr ⟨digits_toDigits _, digits_zeros _⟩) hlen, ?_, ?_, ?_⟩
  · rw [formatDecimal, if_pos hs, hneg, DecimalLiteral.text_ofDigits_zero, toString_int]
    simp only [bind, Except.bind, pure, Except.pure, ← String.ofList_append, List.append_assoc]
  · rw [DecimalLiteral.length_fraction_ofDigits]
    omega
  · have hpow : (-scale.toInt) = ((-scale).toInt.toNat : ℤ) := by omega
    rw [DecimalLiteral.value_ofDigits, digitsValue_append, digitsValue_zeros,
      digitsValue_toDigits, List.length_replicate, hpow, zpow_natCast, ← sign_mul_natAbs raw.val]
    push_cast
    ring

/-- The point before the last `n` digits, with zeros put in front until there is one before it. -/
theorem pointed_digits {digits : List Char} (hdigits : Digits digits) {n : ℕ} {l : List Char}
    (hl : List.replicate (n + 1 - digits.length) '0' ++ digits = l)
    (rest : String → Outcome ε String) :
    (if digits.length ≤ n then do
        let s ← pure ("0." ++ String.ofList (List.replicate (n - digits.length) '0') ++
          String.ofList digits)
        rest s
      else do
        let whole ← strRange (String.ofList digits) 0 (digits.length - n)
        let fraction ← strRange (String.ofList digits) (digits.length - n) digits.length
        let s ← pure (whole ++ "." ++ fraction)
        rest s) =
      rest (String.ofList (l.take (l.length - n) ++ '.' :: l.drop (l.length - n))) := by
  subst hl
  split
  · next h =>
    have hzeros : n + 1 - digits.length = (n - digits.length) + 1 := by omega
    have hone : ((n - digits.length) + 1 + digits.length) - n = 1 := by omega
    have hpoint : "0." = String.ofList ['0', '.'] := rfl
    rw [hzeros, List.length_append, List.length_replicate, hone, List.replicate_succ,
      List.cons_append, List.take_succ_cons, List.drop_succ_cons, List.take_zero, List.drop_zero,
      hpoint, ← String.ofList_append, ← String.ofList_append]
    rfl
  · next h =>
    have hzeros : n + 1 - digits.length = 0 := by omega
    have hpoint : "." = String.ofList ['.'] := rfl
    have hdrop : (digits.drop (digits.length - n)).take (digits.length - (digits.length - n)) =
        digits.drop (digits.length - n) := by
      rw [← List.length_drop, List.take_length]
    rw [hzeros, List.replicate_zero, List.nil_append,
      strRange_ascii hdigits.ascii (Nat.zero_le _) (Nat.sub_le _ _),
      strRange_ascii hdigits.ascii (Nat.sub_le _ _) le_rfl, List.drop_zero, Nat.sub_zero, hdrop]
    simp only [bind, Except.bind, pure, Except.pure, hpoint, ← String.ofList_append]
    rw [List.append_assoc]
    rfl

/-- With digits after the point. -/
theorem formatDecimal_of_pos (raw : I128) {scale : Int8} (hs : ¬ scale ≤ 0) :
    ∃ x : DecimalLiteral, (formatDecimal raw scale : Outcome ε String) = .ok x.text ∧
      (x.fraction.length : ℤ) = max 0 scale.toInt ∧ x.value = raw.val * 10 ^ (-scale.toInt) := by
  have hs' : 0 < scale.toInt := by
    rw [Int8.le_iff_toInt_le] at hs
    exact not_le.mp hs
  generalize hd : Nat.toDigits 10 raw.val.natAbs = digits
  generalize hn : scale.toInt.toNat = n
  have hdigits : Digits digits := hd ▸ digits_toDigits _
  have hlen : n < (List.replicate (n + 1 - digits.length) '0' ++ digits).length := by
    rw [List.length_append, List.length_replicate]
    omega
  refine ⟨.ofDigits (decide (raw.val < 0))
    (digits_append.mpr ⟨digits_zeros _, hdigits⟩) hlen, ?_, ?_, ?_⟩
  · have htext : toString raw.val.natAbs = String.ofList digits := by
      rw [Nat.toString_eq_ofList_toDigits, hd]
    have hlen' : (utf8 (String.ofList digits)).length = digits.length := by
      rw [utf8_ascii hdigits.ascii, List.length_map]
    have hn' : 0 < n := by omega
    rw [formatDecimal, if_neg hs, htext, hn, DecimalLiteral.text_ofDigits_of_pos hn']
    simp only [hlen']
    rw [pointed_digits hdigits rfl]
    have hsign : "-" = String.ofList ['-'] := rfl
    by_cases hneg : raw.val < 0
    · rw [if_pos hneg, if_pos (decide_eq_true hneg), hsign, ← String.ofList_append,
        List.append_assoc]
      rfl
    · rw [if_neg hneg, if_neg (by simpa using hneg), List.nil_append]
      rfl
  · rw [DecimalLiteral.length_fraction_ofDigits]
    omega
  · have hpow : scale.toInt = (n : ℤ) := by omega
    rw [DecimalLiteral.value_ofDigits, ← hd, digitsValue_padded, hpow, zpow_neg, zpow_natCast,
      ← sign_mul_natAbs raw.val, div_eq_mul_inv]

theorem exists_formatDecimal (raw : I128) {scale : Int8} (hmin : scale ≠ Int8.minValue) :
    ∃ x : DecimalLiteral, (formatDecimal raw scale : Outcome ε String) = .ok x.text ∧
      (x.fraction.length : ℤ) = max 0 scale.toInt ∧ x.value = raw.val * 10 ^ (-scale.toInt) := by
  by_cases hs : scale ≤ 0
  · exact formatDecimal_of_nonpos raw hs hmin
  · exact formatDecimal_of_pos raw hs

/-- The least scale has no negation. -/
theorem formatDecimal_overflow (raw : I128) :
    (formatDecimal raw Int8.minValue : Outcome ε String) = .error .panic := rfl

/-- The text of a scaled integer is exact for every scale but the least. -/
theorem formatDecimal_exact_iff (raw : I128) (scale : Int8) :
    (∃ x : DecimalLiteral, (formatDecimal raw scale : Outcome ε String) = .ok x.text ∧
      (x.fraction.length : ℤ) = max 0 scale.toInt ∧ x.value = raw.val * 10 ^ (-scale.toInt)) ↔
      scale ≠ Int8.minValue := by
  constructor
  · intro h hmin
    obtain ⟨x, hx, -⟩ := h
    rw [hmin, formatDecimal_overflow] at hx
    cases hx
  · intro hmin
    exact exists_formatDecimal raw hmin

theorem formatDecimal_minValue_overflows : ¬ ∃ x : DecimalLiteral,
    (formatDecimal ⟨1, by decide⟩ Int8.minValue : Outcome Empty String) = .ok x.text := by
  intro h
  obtain ⟨x, hx⟩ := h
  cases hx

/-- `Decimal128::from_str` on a plain decimal literal gives its exact value if that has an
encoding, and is an error otherwise. -/
def ParsesDecimals (crates : Crates) : Prop :=
  ∀ x : DecimalLiteral,
    (Representable x.value →
      ∃ d, crates.decimalFromStr x.text = .ok d ∧ decimalValue d = some x.value) ∧
    (¬ Representable x.value → ∃ e, crates.decimalFromStr x.text = .error e)

section Columns

variable {crates : Crates} (floats : Floats)

theorem abs_raw_lt (raw : I128) : |raw.val| < 10 ^ 39 := by
  have hlo := raw.property.1
  have hhi := raw.property.2
  exact abs_lt.mpr ⟨by omega, by omega⟩

/-- The value of a scaled integer has an encoding when its digits fit. -/
theorem representable_raw_iff (raw : I128) (scale : Int8) :
    Representable (raw.val * 10 ^ (-scale.toInt)) ↔ FitsDigits raw.val := by
  constructor
  · exact fitsDigits_of_representable
  · intro h
    have hlo := scale.le_toInt
    have hhi := scale.toInt_lt
    exact h.representable (abs_raw_lt raw) (by omega) (by omega)

/-- A decimal whose digits fit is encoded exactly. -/
theorem decimal128FromScaled_of_fits (hparse : ParsesDecimals crates) {raw : I128} {scale : Int8}
    (hmin : scale ≠ Int8.minValue) (h : FitsDigits raw.val) :
    ∃ d, (decimal128FromScaled crates floats raw scale : Outcome ε Bson) = .ok (.decimal128 d) ∧
      decimalValue d = some ((raw.val : ℚ) * 10 ^ (-scale.toInt)) := by
  obtain ⟨x, htext, -, hvalue⟩ := exists_formatDecimal (ε := ε) raw hmin
  rw [← representable_raw_iff raw scale, ← hvalue] at h
  obtain ⟨d, hd, hdv⟩ := (hparse x).1 h
  refine ⟨d, ?_, hvalue ▸ hdv⟩
  rw [decimal128FromScaled, htext]
  simp only [bind, Except.bind, hd]
  rfl

/-- A decimal with too many digits becomes a double. -/
theorem decimal128FromScaled_of_not_fits (hparse : ParsesDecimals crates) {raw : I128}
    {scale : Int8} (hmin : scale ≠ Int8.minValue) (h : ¬ FitsDigits raw.val) :
    (decimal128FromScaled crates floats raw scale : Outcome ε Bson) =
      .ok (.double (floats.ofScaled raw scale)) := by
  obtain ⟨x, htext, -, hvalue⟩ := exists_formatDecimal (ε := ε) raw hmin
  rw [← representable_raw_iff raw scale, ← hvalue] at h
  obtain ⟨e, he⟩ := (hparse x).2 h
  rw [decimal128FromScaled, htext]
  simp only [bind, Except.bind, he]
  rfl

/-- A decimal is encoded exactly if and only if 34 digits are enough for it. -/
theorem decimal128FromScaled_exact_iff (hparse : ParsesDecimals crates) (raw : I128)
    (scale : Int8) (hmin : scale ≠ Int8.minValue) :
    (∃ d, (decimal128FromScaled crates floats raw scale : Outcome ε Bson) =
        .ok (.decimal128 d) ∧ decimalValue d = some ((raw.val : ℚ) * 10 ^ (-scale.toInt))) ↔
      FitsDigits raw.val := by
  constructor
  · intro h
    by_contra hnot
    obtain ⟨d, hd, -⟩ := h
    rw [decimal128FromScaled_of_not_fits floats hparse hmin hnot] at hd
    cases hd
  · exact decimal128FromScaled_of_fits floats hparse hmin

end Columns

open Classical in
/-- The decimal of a literal: its own coefficient and exponent where they fit, and otherwise some
encoding of its value. -/
noncomputable def parseDecimal (s : String) : Except String (Vector UInt8 16) :=
  if h : ∃ x : DecimalLiteral, x.text = s ∧ Representable x.value then
    if h.choose.coefficient < coefficientBound ∧ h.choose.fraction.length ≤ 6176 then
      .ok (encode h.choose.negative h.choose.coefficient (6176 - h.choose.fraction.length))
    else .ok ((representable_iff _).mp h.choose_spec.2).choose
  else .error "inexact rounding"

noncomputable def decimalCrates : Crates := { formatCrates with decimalFromStr := parseDecimal }

theorem parsesDecimals_decimalCrates : ParsesDecimals decimalCrates := by
  intro x
  constructor
  · intro hx
    have h : ∃ y : DecimalLiteral, y.text = x.text ∧ Representable y.value := ⟨x, rfl, hx⟩
    have hchoose : h.choose = x := DecimalLiteral.text_injective h.choose_spec.1
    simp only [decimalCrates, parseDecimal, dif_pos h]
    split
    · next hfit =>
      refine ⟨_, rfl, ?_⟩
      rw [hchoose] at hfit ⊢
      rw [decimalValue_encode _ hfit.1 (by omega)]
      have hexp : ((6176 - x.fraction.length : ℕ) : ℤ) - 6176 = -(x.fraction.length : ℤ) := by omega
      rw [hexp, zpow_neg, zpow_natCast, ← div_eq_mul_inv]
      rfl
    · refine ⟨_, rfl, ?_⟩
      rw [((representable_iff _).mp h.choose_spec.2).choose_spec, hchoose]
  · intro hx
    have h : ¬ ∃ y : DecimalLiteral, y.text = x.text ∧ Representable y.value := by
      intro h
      obtain ⟨y, hy, hval⟩ := h
      exact hx (DecimalLiteral.text_injective hy ▸ hval)
    refine ⟨"inexact rounding", ?_⟩
    simp only [decimalCrates, parseDecimal, dif_neg h]

theorem decimal128FromScaled_exact_hundredths :
    (∃ d, (decimal128FromScaled decimalCrates noFloats ⟨12345, by decide⟩ 2 : Outcome Empty Bson) =
        .ok (.decimal128 d) ∧
      decimalValue d = some (((12345 : ℤ) : ℚ) * 10 ^ (-(2 : Int8).toInt))) ↔ FitsDigits 12345 :=
  decimal128FromScaled_exact_iff noFloats parsesDecimals_decimalCrates ⟨12345, by decide⟩ 2
    (by decide)

/-- A number of 38 digits that 34 digits do not hold. -/
def wideRaw : I128 := ⟨10 ^ 37 + 1, by decide⟩

theorem decimal128FromScaled_wideRaw : ParsesDecimals decimalCrates ∧ |wideRaw.val| < 10 ^ 38 ∧
    (decimal128FromScaled decimalCrates noFloats wideRaw 0 : Outcome Empty Bson) =
      .ok (.double 0) := by
  refine ⟨parsesDecimals_decimalCrates, by decide, ?_⟩
  apply decimal128FromScaled_of_not_fits noFloats parsesDecimals_decimalCrates (by decide)
  exact not_fitsDigits_of_not_dvd (by decide) (by decide)

end VgiBson.DecimalColumns
