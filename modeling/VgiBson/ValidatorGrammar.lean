import VgiBson.BsonGrammar
import VgiBson.CursorLanguages
import VgiBson.StructuralValidator

/-! # The validator reads exactly the BSON grammar

Each reader of the validator reads the corresponding piece of the grammar; the element loop reads
the element lists that fill the declared body; by induction on the levels left, `validateDoc` reads
the documents of its nesting level. -/

namespace VgiBson.ValidatorGrammar

open MachineBytes CursorWalks CursorLanguages StructuralValidator BsonGrammar

variable {T : Target} {buf : Bytes T}

theorem reads_readI32 : Reads buf (readI32 buf) (fun i v =>
    ∃ b₀ b₁ b₂ b₃, v = [b₀, b₁, b₂, b₃] ∧ i = i32FromLeBytes b₀ b₁ b₂ b₃) := by
  intro p hp i q
  simp only [readI32, yields_bind, yields_position, yields_okOr, yields_moveTo, index,
    yields_orPanic, yields_pure, Target.checkedAdd_eq_some_iff, Bytes.getRange_eq_some_iff]
  constructor
  · intro h
    obtain ⟨_, _, ⟨rfl, rfl⟩, _, _, ⟨⟨-, rfl⟩, rfl⟩, s, _, ⟨⟨-, hle, rfl⟩, rfl⟩, _, _, rfl,
      b₀, _, ⟨h₀, rfl⟩, b₁, _, ⟨h₁, rfl⟩, b₂, _, ⟨h₂, rfl⟩, b₃, _, ⟨h₃, rfl⟩, rfl, rfl⟩ := h
    obtain ⟨v, hv, hat⟩ := exists_at_of_le hle
    rw [← hv, sub_eq_of_at hat] at h₀ h₁ h₂ h₃
    refine ⟨v, ⟨b₀, b₁, b₂, b₃, ?_, rfl⟩, hat, by rw [hv]⟩
    obtain ⟨c₀, c₁, c₂, c₃, rfl⟩ := exists_of_length_four hv
    simp_all
  · intro h
    obtain ⟨_, ⟨b₀, b₁, b₂, b₃, rfl, rfl⟩, hat, rfl⟩ := h
    have hle := hat.end_le hp
    have hmax := buf.len_lt_usizeMax
    have hs := sub_eq_of_at hat
    simp only [List.length_cons, List.length_nil] at hle hs
    refine ⟨_, _, ⟨rfl, rfl⟩, _, _, ⟨⟨by omega, rfl⟩, rfl⟩, _, _, ⟨⟨by omega, hle, rfl⟩, rfl⟩,
      (), _, rfl, b₀, _, ⟨?_, rfl⟩, b₁, _, ⟨?_, rfl⟩, b₂, _, ⟨?_, rfl⟩, b₃, _, ⟨?_, rfl⟩, rfl, rfl⟩
    all_goals
      rw [hs]
      rfl

/-- The readable lengths from `lo` on are the little-endian words of natural numbers. -/
theorem yields_readI32_ge {lo : ℤ} (hlo : 0 ≤ lo) {p : ℕ} (hp : p ≤ buf.len) (i : ℤ) (q : ℕ) :
    (Yields (readI32 buf) p i q ∧ lo ≤ i) ↔
      ∃ n : ℕ, lo ≤ n ∧ n < 2 ^ 31 ∧ i = n ∧ At buf p (le32 n) ∧ q = p + 4 := by
  rw [reads_readI32 p hp]
  constructor
  · intro h
    obtain ⟨⟨v, ⟨b₀, b₁, b₂, b₃, rfl, rfl⟩, hat, rfl⟩, hle⟩ := h
    have hlt := i32FromLeBytes_lt b₀ b₁ b₂ b₃
    obtain ⟨n, hn⟩ := Int.eq_ofNat_of_zero_le (hlo.trans hle)
    have hn' : n < 2 ^ 31 := by omega
    have hw := (i32FromLeBytes_eq_iff b₀ b₁ b₂ b₃ hn').mp hn
    exact ⟨n, by omega, hn', hn, hw ▸ hat, rfl⟩
  · intro h
    obtain ⟨n, hle, hn, rfl, hat, rfl⟩ := h
    have hw := (i32FromLeBytes_eq_iff _ _ _ _ hn).mpr (rfl : le32 n = le32 n)
    exact ⟨⟨le32 n, ⟨_, _, _, _, rfl, hw.symm⟩, hat, rfl⟩, hle⟩

/-- Reading a length that is at least `lo`, then a body that may depend on it. -/
theorem reads_length {β : Type} {lo : ℤ} (hlo : 0 ≤ lo) {e : DecodeError}
    {f : ℤ → Walk DecodeError β} {M : ℕ → β → List UInt8 → Prop}
    (hf : ∀ n : ℕ, lo ≤ n → n < 2 ^ 31 → Reads buf (f n) (M n)) :
    Reads buf (do let i ← readI32 buf; if i < lo then fail e else f i) (fun b u =>
      ∃ (n : ℕ) (w : List UInt8), lo ≤ n ∧ n < 2 ^ 31 ∧ u = le32 n ++ w ∧ M n b w) := by
  intro p hp b q
  simp only [yields_bind, yields_ite_fail, not_lt]
  constructor
  · intro h
    obtain ⟨i, m, hi, hle, hb⟩ := h
    obtain ⟨n, hle, hn, rfl, hat, rfl⟩ := (yields_readI32_ge hlo hp i m).mp ⟨hi, hle⟩
    obtain ⟨w, hM, haw, rfl⟩ := (hf n hle hn _ (hat.end_le hp) b q).mp hb
    exact ⟨le32 n ++ w, ⟨n, w, hle, hn, rfl, hM⟩, at_append.mpr ⟨hat, haw⟩,
      by simp [Nat.add_assoc]⟩
  · intro h
    obtain ⟨u, ⟨n, w, hle, hn, rfl, hM⟩, hu, rfl⟩ := h
    obtain ⟨hat, haw⟩ := at_append.mp hu
    obtain ⟨hi, -⟩ := (yields_readI32_ge hlo hp n _).mpr ⟨n, hle, hn, rfl, hat, rfl⟩
    refine ⟨n, _, hi, hle, (hf n hle hn _ (hat.end_le hp) b _).mpr ⟨w, hM, haw, ?_⟩⟩
    simp [Nat.add_assoc]

theorem yields_skip (n p : ℕ) (u : Unit) (q : ℕ) :
    Yields (skip buf n) p u q ↔ p + n ≤ buf.len ∧ p + n = q := by
  have hmax := buf.len_lt_usizeMax
  simp only [skip, yields_bind, yields_position, yields_okOr, yields_ite_fail, yields_moveTo,
    Target.checkedAdd_eq_some_iff, not_lt]
  constructor
  · intro h
    obtain ⟨_, _, ⟨rfl, rfl⟩, _, _, ⟨⟨-, rfl⟩, rfl⟩, hle, rfl⟩ := h
    exact ⟨hle, rfl⟩
  · intro h
    obtain ⟨hle, rfl⟩ := h
    exact ⟨_, _, ⟨rfl, rfl⟩, _, _, ⟨⟨by omega, rfl⟩, rfl⟩, hle, rfl⟩

theorem reads_skip (n : ℕ) : Reads buf (skip buf n) (fun _ v => v.length = n) := by
  intro p hp u q
  rw [yields_skip]
  constructor
  · intro h
    obtain ⟨hle, rfl⟩ := h
    obtain ⟨v, hv, hat⟩ := exists_at_of_le hle
    exact ⟨v, hv, hat, by rw [hv]⟩
  · intro h
    obtain ⟨v, rfl, hat, rfl⟩ := h
    exact ⟨hat.end_le hp, rfl⟩

theorem yields_advance (n p : ℕ) (u : Unit) (q : ℕ) :
    Yields (advance T n : Walk DecodeError Unit) p u q ↔ p + n ≤ T.usizeMax ∧ p + n = q := by
  simp only [advance, addUsize, yields_bind, yields_position, yields_orPanic, yields_moveTo,
    Target.checkedAdd_eq_some_iff]
  constructor
  · intro h
    obtain ⟨_, _, ⟨rfl, rfl⟩, _, _, ⟨⟨h, rfl⟩, -⟩, rfl⟩ := h
    exact ⟨h, rfl⟩
  · intro h
    obtain ⟨h, rfl⟩ := h
    exact ⟨_, _, ⟨rfl, rfl⟩, _, _, ⟨⟨h, rfl⟩, rfl⟩, rfl⟩

theorem findIdx?_zero_eq_some_iff (l : List UInt8) (n : ℕ) :
    l.findIdx? (· = 0) = some n ↔ ∃ v r, l = v ++ 0 :: r ∧ 0 ∉ v ∧ v.length = n := by
  induction l generalizing n with
  | nil => simp
  | cons b l ih =>
    rw [List.findIdx?_cons]
    by_cases hb : b = 0
    · subst hb
      simp only [decide_true, if_true, Option.some.injEq]
      constructor
      · intro h
        obtain rfl := h
        exact ⟨[], l, rfl, by simp, rfl⟩
      · intro h
        obtain ⟨v, r, he, hv, rfl⟩ := h
        cases v with
        | nil => rfl
        | cons c v => simp_all
    · simp only [hb, decide_false, Bool.false_eq_true, if_false, Option.map_eq_some_iff, ih]
      constructor
      · intro h
        obtain ⟨_, ⟨v, r, rfl, hv, rfl⟩, rfl⟩ := h
        exact ⟨b :: v, r, rfl, by simp [hv, Ne.symm hb], rfl⟩
      · intro h
        obtain ⟨v, r, he, hv, rfl⟩ := h
        cases v with
        | nil => simp_all
        | cons c v =>
          obtain ⟨rfl, rfl⟩ := List.cons.inj he
          exact ⟨v.length, ⟨v, r, rfl, fun h => hv (List.mem_cons_of_mem _ h), rfl⟩, rfl⟩

/-- A cstring is a text without NUL and the NUL behind it. -/
theorem reads_readCstringStr :
    Reads buf (readCstringStr buf) (fun s v => NulFree s ∧ v = utf8 s ++ [0]) := by
  intro p hp s q
  have hmax := buf.len_lt_usizeMax
  simp only [readCstringStr, yields_bind, yields_position, yields_okOr, range, addUsize,
    yields_orPanic, yields_pure, yields_advance, Bytes.getFrom, Target.checkedAdd_eq_some_iff,
    Bytes.getRange_eq_some_iff, findIdx?_zero_eq_some_iff, fromUtf8_eq_some_iff]
  have hrest : (buf.sub p buf.len).data = buf.data.drop p := by
    rw [Bytes.data_sub, List.take_of_length_le]
    simp [Bytes.len]
  constructor
  · intro h
    obtain ⟨_, _, ⟨rfl, rfl⟩, _, _, ⟨⟨-, -, rfl⟩, rfl⟩, _, _, ⟨⟨v, r, hv, h0, rfl⟩, rfl⟩,
      _, _, ⟨⟨-, -, rfl⟩, rfl⟩, t, _, ⟨ht, rfl⟩, _, _, ⟨⟨-, rfl⟩, rfl⟩, _, _, ⟨-, rfl⟩,
      rfl, rfl⟩ := h
    have htv : utf8 t = v := by
      rw [ht, Bytes.data_sub, hv]
      simp
    rw [hrest] at hv
    refine ⟨utf8 t ++ [0], ⟨?_, rfl⟩, ⟨r, ?_⟩, by simp [htv]⟩
    · rw [NulFree, htv]
      exact h0
    · rw [hv, htv, List.append_assoc, List.singleton_append]
  · intro h
    obtain ⟨v, ⟨h0, rfl⟩, hat, rfl⟩ := h
    have hle := hat.end_le hp
    obtain ⟨r, hr⟩ := hat
    simp only [List.length_append, List.length_singleton, List.append_assoc,
      List.singleton_append] at hle hr
    refine ⟨_, _, ⟨rfl, rfl⟩, _, _, ⟨⟨hp, le_rfl, rfl⟩, rfl⟩, _, _,
      ⟨⟨utf8 s, r, ?_, h0, rfl⟩, rfl⟩, _, _, ⟨⟨Nat.zero_le _, ?_, rfl⟩, rfl⟩, s, _, ⟨?_, rfl⟩,
      _, _, ⟨⟨?_, rfl⟩, rfl⟩, (), _, ⟨?_, rfl⟩, rfl, ?_⟩
    · rw [hrest, hr]
    · change (utf8 s).length ≤ (buf.sub p buf.len).data.length
      rw [hrest, ← hr]
      simp
    · rw [Bytes.data_sub, hrest, ← hr]
      simp
    · omega
    · omega
    · simp only [List.length_append, List.length_singleton]

theorem readCstring_eq (buf : Bytes T) :
    readCstring buf = (readCstringStr buf >>= fun _ => pure ()) := by
  simp only [readCstring, readCstringStr, bind_assoc, pure_bind, bind_pure_unit]

theorem reads_readCstring :
    Reads buf (readCstring buf) (fun _ v => ∃ s, NulFree s ∧ v = utf8 s ++ [0]) := by
  rw [readCstring_eq]
  refine (reads_readCstringStr.bind fun _ => Reads.pure ()).congr fun u v => ?_
  simp [and_comm]

/-- A string is its length with the NUL, its text and the NUL. -/
theorem reads_readString : Reads buf (readString buf) (fun _ v => ∃ s : String,
    (utf8 s).length + 1 < 2 ^ 31 ∧ v = le32 ((utf8 s).length + 1) ++ utf8 s ++ [0]) := by
  refine (reads_length (M := fun n _ w => ∃ s, w = utf8 s ++ [0] ∧ w.length = n) (by decide)
    fun n h1 hn => ?_).congr fun _ v => ?_
  · have hmax := buf.len_lt_usizeMax
    obtain ⟨m, rfl⟩ : ∃ m, n = m + 1 := ⟨n - 1, by omega⟩
    intro p hp u q
    simp only [yields_bind, yields_position, yields_skip, addUsize, subUsize, range, index,
      yields_orPanic, yields_ite_fail, yields_okOr, yields_pure, Target.checkedAdd_eq_some_iff,
      Bytes.getRange_eq_some_iff, fromUtf8_eq_some_iff, not_not,
      T.usizeOfI32_of_nonneg (Int.natCast_nonneg (m + 1)) (by omega : ((m + 1 : ℕ) : ℤ) < 2 ^ 31),
      Int.toNat_natCast, Nat.le_add_left, if_true, Nat.add_sub_cancel, Option.some.injEq]
    constructor
    · intro h
      obtain ⟨_, _, ⟨rfl, rfl⟩, _, _, ⟨hle, rfl⟩, _, _, ⟨⟨-, rfl⟩, rfl⟩, _, _, ⟨⟨-, -, rfl⟩, rfl⟩,
        _, _, ⟨rfl, rfl⟩, _, _, ⟨hz, rfl⟩, rfl, _, _, ⟨rfl, rfl⟩, _, _, ⟨⟨-, -, rfl⟩, rfl⟩,
        s, _, ⟨hs, rfl⟩, -, rfl⟩ := h
      obtain ⟨v, hv, hat⟩ := exists_at_of_le hle
      rcases List.eq_nil_or_concat' v with rfl | ⟨w, z, rfl⟩
      · simp at hv
      · simp only [List.length_append, List.length_singleton, Nat.add_right_cancel_iff] at hv
        subst hv
        have hd := sub_eq_of_at hat
        simp only [List.length_append, List.length_singleton] at hd
        rw [hd] at hz
        rw [Bytes.data_sub, hd] at hs
        refine ⟨_, ⟨s, ?_, by simp⟩, hat, by simp⟩
        simp_all
    · intro h
      obtain ⟨v, ⟨s, rfl, hv⟩, hat, rfl⟩ := h
      have hle := hat.end_le hp
      have hd := sub_eq_of_at hat
      simp only [List.length_append, List.length_singleton, Nat.add_right_cancel_iff] at hle hd hv
      subst hv
      refine ⟨_, _, ⟨rfl, rfl⟩, (), _, ⟨hle, rfl⟩, _, _, ⟨⟨by omega, rfl⟩, rfl⟩, _, _,
        ⟨⟨by omega, hle, rfl⟩, rfl⟩, _, _, ⟨rfl, rfl⟩, 0, _, ⟨?_, rfl⟩, rfl, _, _, ⟨rfl, rfl⟩, _, _,
        ⟨⟨Nat.zero_le _, ?_, rfl⟩, rfl⟩, s, _, ⟨?_, rfl⟩, trivial, by simp⟩
      · rw [hd]
        simp
      · rw [Bytes.len, hd]
        simp
      · rw [Bytes.data_sub, hd]
        simp
  · constructor
    · intro h
      obtain ⟨n, _, -, hn, rfl, s, rfl, rfl⟩ := h
      rw [List.length_append] at hn
      exact ⟨s, hn, by simp⟩
    · intro h
      obtain ⟨s, hs, rfl⟩ := h
      exact ⟨_, utf8 s ++ [0], by omega, hs, List.append_assoc _ _ _, s, rfl, by simp⟩

theorem reads_readBinary : Reads buf (readBinary buf) (fun _ v =>
    ∃ (st : UInt8) (w : List UInt8), w.length < 2 ^ 31 ∧ v = le32 w.length ++ [st] ++ w) := by
  refine (reads_length (M := fun n _ w => ∃ v v', w = v ++ v' ∧ v.length = 1 ∧ v'.length = n)
    le_rfl fun n _ hn => ?_).congr fun _ v => ?_
  · rw [T.usizeOfI32_of_nonneg (Int.natCast_nonneg n) (by omega)]
    exact ((reads_skip 1).bind fun _ => reads_skip n).congr fun _ w => by simp
  · constructor
    · intro h
      obtain ⟨_, _, -, hn, rfl, st, w, rfl, hst, rfl⟩ := h
      obtain ⟨st, rfl⟩ := List.length_eq_one_iff.mp hst
      exact ⟨st, w, hn, by simp⟩
    · intro h
      obtain ⟨st, w, hw, rfl⟩ := h
      exact ⟨w.length, [st] ++ w, by omega, hw, by simp, [st], w, rfl, rfl, rfl⟩

theorem reads_readBoolean :
    Reads buf (readBoolean buf) (fun _ v => v = [0] ∨ v = [1]) := by
  intro p hp u q
  simp only [readBoolean, yields_bind, yields_position, yields_skip, index, yields_orPanic,
    yields_ite_pure, yields_fail, and_false, or_false]
  constructor
  · intro h
    obtain ⟨_, _, ⟨rfl, rfl⟩, _, _, ⟨-, rfl⟩, b, _, ⟨hb, rfl⟩, hbit, -, rfl⟩ := h
    refine ⟨[b], ?_, at_cons.mpr ⟨hb, At.nil _⟩, rfl⟩
    rcases hbit with rfl | rfl <;> simp
  · intro h
    obtain ⟨v, hv, hat, rfl⟩ := h
    obtain ⟨b, rfl, hbit⟩ : ∃ b, v = [b] ∧ (b = 0 ∨ b = 1) := by
      rcases hv with rfl | rfl <;> simp
    exact ⟨_, _, ⟨rfl, rfl⟩, (), _, ⟨hat.end_le hp, rfl⟩, b, _, ⟨(at_cons.mp hat).1, rfl⟩, hbit,
      trivial, rfl⟩

/-- The reader of one piece; `doc` reads a nested document. -/
def readPiece (buf : Bytes T) (doc : Walk DecodeError Unit) : Piece → Walk DecodeError Unit
  | .raw n => skip buf n
  | .boolean => readBoolean buf
  | .text => readString buf
  | .cstring => readCstring buf
  | .binary => readBinary buf
  | .size => do
    let total ← readI32 buf
    if total < 0 then fail .lengthMismatch else pure ()
  | .document => doc

def readPieces (buf : Bytes T) (doc : Walk DecodeError Unit) : List Piece → Walk DecodeError Unit
  | [] => pure ()
  | p :: ps => do
    readPiece buf doc p
    readPieces buf doc ps

/-- The nested call of `validate_value`, one level down. -/
def nestedDoc (doc : ℕ → Walk DecodeError Unit) (T : Target) (depth : ℕ) :
    Walk DecodeError Unit := do
  let d ← addUsize T depth 1
  doc d

/-- Below the nesting limit the next depth does not overflow. -/
theorem nestedDoc_eq (doc : ℕ → Walk DecodeError Unit) {depth : ℕ} (h : depth ≤ maxNesting) :
    nestedDoc doc T depth = doc (depth + 1) := by
  have hm := T.two_mul_isizeMax
  have hi := T.i32_le_isizeMax
  have hadd : T.checkedAdd depth 1 = some (depth + 1) := by
    rw [Target.checkedAdd_eq_some_iff]
    simp only [maxNesting] at h
    omega
  simp only [nestedDoc, addUsize, hadd, orPanic_some, pure_bind]

/-- `validate_value` reads the layout of its type byte, piece by piece. -/
theorem validateValue_eq_pieces (buf : Bytes T) (doc : ℕ → Walk DecodeError Unit) (ty : UInt8)
    (depth : ℕ) : validateValue buf doc ty depth =
      match layout ty with
      | some ps => readPieces buf (nestedDoc doc T depth) ps
      | none => fail .invalidType := by
  unfold validateValue layout
  split <;> simp only [readPieces, readPiece, nestedDoc, bind_assoc, bind_pure_unit, guard_bind]

/-- A call of `validate_doc` uses the calls below it only one level down. -/
theorem documentBody_congr {doc doc' : ℕ → Walk DecodeError Unit} {depth : ℕ}
    (h : depth ≤ maxNesting → nestedDoc doc T depth = nestedDoc doc' T depth)
    (checkDupes : Bool) :
    documentBody buf checkDupes doc depth = documentBody buf checkDupes doc' depth := by
  by_cases hd : depth > maxNesting
  · simp only [documentBody, if_pos hd]
  · simp only [documentBody, validateValue_eq_pieces, h (Nat.not_lt.mp hd)]

/-- `validate_doc` satisfies the recursive equation of the source. -/
theorem validateDoc_eq (buf : Bytes T) (depth : ℕ) (checkDupes : Bool) :
    validateDoc buf depth checkDupes =
      documentBody buf checkDupes (fun d => validateDoc buf d checkDupes) depth := by
  apply documentBody_congr
  intro hd
  have hl : maxNesting + 1 - depth = maxNesting + 1 - (depth + 1) + 1 := by omega
  rw [nestedDoc_eq _ hd, nestedDoc_eq _ hd, hl]
  rfl

section Documents

variable {R : Rules} {k : ℕ} {doc : Walk DecodeError Unit}

theorem reads_readPiece (hdoc : Reads buf doc (fun _ v => Doc R (k + 1) v)) (p : Piece) :
    Reads buf (readPiece buf doc p) (fun _ v => Word R k p v) := by
  cases p with
  | raw n => exact reads_skip n
  | boolean => exact reads_readBoolean
  | text => exact reads_readString
  | cstring => exact reads_readCstring
  | binary => exact reads_readBinary
  | size =>
    refine (reads_length le_rfl fun n _ _ => Reads.pure ()).congr fun _ v => ?_
    simp [Word]
  | document => exact hdoc

theorem reads_readPieces (hdoc : Reads buf doc (fun _ v => Doc R (k + 1) v)) (ps : List Piece) :
    Reads buf (readPieces buf doc ps) (fun _ v => Derives R (.pieces k ps) v) := by
  induction ps with
  | nil =>
    refine (Reads.pure ()).congr fun _ v => ?_
    rw [derives_pieces_nil, eq_self_iff_true, true_and]
  | cons p ps ih =>
    refine ((reads_readPiece hdoc p).bind fun _ => ih).congr fun _ v => ?_
    rw [derives_pieces_cons]
    simp only [exists_const]

/-- A value of type `ty` is a sequence of the pieces of that type. -/
theorem reads_validateValue {doc : ℕ → Walk DecodeError Unit}
    (hdoc : Reads buf (nestedDoc doc T k) (fun _ v => Doc R (k + 1) v)) (ty : UInt8) :
    Reads buf (validateValue buf doc ty k)
      (fun _ v => ∃ ps, layout ty = some ps ∧ Derives R (.pieces k ps) v) := by
  rw [validateValue_eq_pieces]
  cases hl : layout ty with
  | none => exact (Reads.fail _).congr fun _ v => by simp
  | some ps => exact (reads_readPieces hdoc ps).congr fun _ v => by simp

/-- The grammar of `validate_doc`: at most `maxNesting` levels, distinct keys when asked. -/
def rules (checkDupes : Bool) : Rules where
  level k := k ≤ maxNesting
  keys ks := checkDupes = true → ks.Nodup
  value _ _ := True

variable {checkDupes : Bool} {value : UInt8 → Walk DecodeError Unit} {docEnd : ℕ}

theorem yields_noteKey (checkDupes : Bool) (seen : List String) (key : String) (p : ℕ)
    (seen' : List String) (q : ℕ) : Yields (noteKey checkDupes seen key) p seen' q ↔
      (checkDupes = true → key ∉ seen) ∧
        (if checkDupes then seen ++ [key] else seen) = seen' ∧ p = q := by
  cases checkDupes <;> simp [noteKey]

/-- One successful round: the closing byte, or one element and the rounds after it. -/
theorem yields_elementLoop_succ (hend : docEnd ≤ buf.len) (fuel : ℕ) (seen : List String)
    (p q : ℕ) : Yields (elementLoop buf checkDupes value docEnd (fuel + 1) seen) p () q ↔
      p < docEnd ∧ ∃ ty, buf.data[p]? = some ty ∧ ((ty = 0 ∧ p + 1 = q) ∨ (ty ≠ 0 ∧ ∃ key m m',
        Yields (readCstringStr buf) (p + 1) key m ∧ (checkDupes = true → key ∉ seen) ∧
        Yields (value ty) m () m' ∧ m' ≤ docEnd ∧
        Yields (elementLoop buf checkDupes value docEnd fuel
          (if checkDupes then seen ++ [key] else seen)) m' () q)) := by
  have hmax := buf.len_lt_usizeMax
  simp only [elementLoop, yields_bind, yields_round, yields_position, yields_ite_fail, index,
    yields_orPanic, yields_advance, yields_ite_pure, yields_noteKey, not_le, not_lt]
  constructor
  · intro h
    obtain ⟨_, _, rfl, _, _, ⟨rfl, rfl⟩, hp, ty, _, ⟨hty, rfl⟩, _, _, ⟨-, rfl⟩, h⟩ := h
    refine ⟨hp, ty, hty, ?_⟩
    rcases h with ⟨h0, -, hq⟩ | ⟨h0, key, m, hk, _, _, ⟨hd, rfl, rfl⟩, _, m', hv, _, _, ⟨rfl, rfl⟩,
      hle, hr⟩
    · exact .inl ⟨h0, hq⟩
    · exact .inr ⟨h0, key, m, m', hk, hd, hv, hle, hr⟩
  · intro h
    obtain ⟨hp, ty, hty, h⟩ := h
    refine ⟨(), _, rfl, _, _, ⟨rfl, rfl⟩, hp, ty, _, ⟨hty, rfl⟩, (), _, ⟨by omega, rfl⟩, ?_⟩
    rcases h with ⟨h0, hq⟩ | ⟨h0, key, m, m', hk, hd, hv, hle, hr⟩
    · exact .inl ⟨h0, trivial, hq⟩
    · exact .inr ⟨h0, key, m, hk, _, _, ⟨hd, rfl, rfl⟩, (), m', hv, _, _, ⟨rfl, rfl⟩, hle, hr⟩

theorem at_element {p : ℕ} {ty : UInt8} {key : String} {v rest : List UInt8} :
    At buf p (ty :: (utf8 key ++ 0 :: (v ++ rest))) ↔ buf.data[p]? = some ty ∧
      At buf (p + 1) (utf8 key ++ [0]) ∧ At buf (p + 1 + (utf8 key ++ [0]).length) v ∧
      At buf (p + 1 + (utf8 key ++ [0]).length + v.length) rest := by
  have he : utf8 key ++ 0 :: (v ++ rest) = (utf8 key ++ [0]) ++ (v ++ rest) := by simp
  rw [he, at_cons, at_append (v := utf8 key ++ [0]), at_append (v := v)]

/-- With duplicates checked, the keys are distinct and none was seen before. -/
def Fresh (checkDupes : Bool) (seen keys : List String) : Prop :=
  checkDupes = true → keys.Nodup ∧ ∀ key ∈ keys, key ∉ seen

theorem fresh_nil (checkDupes : Bool) (seen : List String) : Fresh checkDupes seen [] :=
  fun _ => ⟨List.nodup_nil, fun _ h => absurd h List.not_mem_nil⟩

/-- One key is checked against the keys before it, the later keys against it too. -/
theorem fresh_cons_iff {seen keys : List String} {key : String} :
    Fresh checkDupes seen (key :: keys) ↔ (checkDupes = true → key ∉ seen) ∧
      Fresh checkDupes (if checkDupes then seen ++ [key] else seen) keys := by
  cases checkDupes with
  | false => simp [Fresh]
  | true =>
    simp only [Fresh, forall_const, if_true, List.nodup_cons, List.mem_cons, forall_eq_or_imp,
      List.mem_append, List.not_mem_nil, or_false, not_or]
    constructor
    · intro h
      obtain ⟨⟨hnew, hnodup⟩, hseen, hkeys⟩ := h
      refine ⟨hseen, hnodup, fun k hk => ⟨hkeys k hk, ?_⟩⟩
      intro he
      exact hnew (he ▸ hk)
    · intro h
      obtain ⟨hseen, hnodup, hkeys⟩ := h
      exact ⟨⟨fun hmem => (hkeys key hmem).2 rfl, hnodup⟩, hseen, fun k hk => (hkeys k hk).1⟩

/-- With a round for every remaining byte, the loop reads element lists up to the closing byte. -/
theorem yields_elementLoop (hend : docEnd ≤ buf.len)
    (hvalue : ∀ ty, Reads buf (value ty) (fun _ v => ∃ ps, layout ty = some ps ∧
      Derives (rules checkDupes) (.pieces k ps) v))
    {fuel : ℕ} {seen : List String} {p : ℕ} (hfuel : docEnd < p + fuel) (q : ℕ) :
    Yields (elementLoop buf checkDupes value docEnd fuel seen) p () q ↔
      ∃ keys body, Derives (rules checkDupes) (.elements k keys) body ∧
        Fresh checkDupes seen keys ∧ At buf p (body ++ [0]) ∧ q = p + (body.length + 1) ∧
        q ≤ docEnd := by
  -- a round consumes at least its type byte, so the rounds left still cover the bytes left
  induction fuel generalizing seen p with
  | zero =>
    constructor
    · intro h
      exact absurd h (yields_stop _ _ _ _)
    · intro h
      obtain ⟨keys, body, -, -, -, hq, hle⟩ := h
      omega
  | succ fuel ih =>
    rw [yields_elementLoop_succ hend]
    constructor
    · intro h
      obtain ⟨hp, ty, hty, ⟨rfl, rfl⟩ | ⟨h0, key, m, m', hk, hd, hv, hle, hr⟩⟩ := h
      · exact ⟨[], [], .noElements, fresh_nil _ _, at_cons.mpr ⟨hty, At.nil _⟩, rfl, hp⟩
      · obtain ⟨_, ⟨hkey, rfl⟩, hka, rfl⟩ := (reads_readCstringStr _ (by omega) _ _).mp hk
        have hm := hka.end_le (by omega)
        obtain ⟨v, ⟨ps, hps, hval⟩, hva, rfl⟩ := (hvalue ty _ hm _ _).mp hv
        obtain ⟨keys, body, hbody, hnew, hba, rfl, hq⟩ := (ih (by omega)).mp hr
        refine ⟨key :: keys, ty :: (utf8 key ++ 0 :: (v ++ body)),
          .element hps hkey hval trivial hbody, fresh_cons_iff.mpr ⟨hd, hnew⟩, ?_, by simp; omega,
          hq⟩
        simp only [List.cons_append, List.append_assoc]
        exact at_element.mpr ⟨hty, hka, hva, hba⟩
    · intro h
      obtain ⟨keys, body, hbody, hnew, hba, rfl, hq⟩ := h
      cases keys with
      | nil =>
        obtain rfl := derives_elements_nil.mp hbody
        exact ⟨by simp at hq; omega, 0, (at_cons.mp hba).1, .inl ⟨rfl, by simp⟩⟩
      | cons key keys =>
        obtain ⟨ty, ps, v, body, hps, hkey, hv, -, hrest, rfl⟩ := derives_elements_cons.mp hbody
        simp only [List.cons_append, List.append_assoc] at hba
        obtain ⟨hty, hka, hva, hba⟩ := at_element.mp hba
        obtain ⟨hd, hnew⟩ := fresh_cons_iff.mp hnew
        have h0 : ty ≠ 0 := by
          intro h
          obtain rfl := h
          simp [layout_zero] at hps
        simp only [List.length_cons, List.length_append] at hq
        have hm := hka.end_le (by omega)
        refine ⟨by omega, ty, hty, .inr ⟨h0, key, _, _,
          (reads_readCstringStr _ (by omega) _ _).mpr ⟨_, ⟨hkey, rfl⟩, hka, rfl⟩,
          hd, (hvalue ty _ hm _ _).mpr ⟨v, ⟨ps, hps, hv⟩, hva, rfl⟩, ?_, ?_⟩⟩
        · simp only [List.length_append, List.length_singleton]
          omega
        · refine (ih ?_).mpr ⟨keys, body, hrest, hnew, hba, ?_, ?_⟩
          all_goals
            simp only [List.length_append, List.length_cons, List.length_nil]
            omega

theorem reads_documentBody {doc : ℕ → Walk DecodeError Unit}
    (hdoc : k ≤ maxNesting →
      Reads buf (nestedDoc doc T k) (fun _ v => Doc (rules checkDupes) (k + 1) v)) :
    Reads buf (documentBody buf checkDupes doc k) (fun _ v => Doc (rules checkDupes) k v) := by
  have hmax := buf.len_lt_usizeMax
  intro p hp u q
  simp only [documentBody, yields_call, yields_ite_fail, yields_bind, yields_position, yields_okOr,
    yields_pure, Target.checkedAdd_eq_some_iff, not_lt, not_not]
  constructor
  · intro h
    obtain ⟨hk, _, _, ⟨rfl, rfl⟩, i, m, hi, h5, _, _, ⟨⟨-, rfl⟩, rfl⟩, hle, _, m', hloop, _, _,
      ⟨rfl, rfl⟩, hm', -, rfl⟩ := h
    obtain ⟨n, h5, hn, rfl, hat, rfl⟩ := (yields_readI32_ge (by decide) hp i _).mp ⟨hi, h5⟩
    rw [T.usizeOfI32_of_nonneg (by omega) (by omega), Int.toNat_natCast] at hle hloop hm'
    obtain ⟨keys, body, hbody, hnew, hba, hq, -⟩ :=
      (yields_elementLoop hle (reads_validateValue (hdoc hk)) (by omega) _).mp hloop
    obtain rfl : n = body.length + 5 := by omega
    refine ⟨le32 (body.length + 5) ++ body ++ [0],
      .document hk hbody (fun hc => (hnew hc).1) hn, ?_, by simp; omega⟩
    rw [List.append_assoc]
    exact at_append.mpr ⟨hat, hba⟩
  · intro h
    obtain ⟨v, hv, hat, rfl⟩ := h
    cases hv with
    | @document _ keys body hk hbody hkeys hn =>
      have hle := hat.end_le hp
      rw [List.append_assoc] at hat
      obtain ⟨hat, hba⟩ := at_append.mp hat
      have hi := (yields_readI32_ge (by decide : (0 : ℤ) ≤ 5) hp _ _).mpr
        ⟨body.length + 5, by omega, hn, rfl, hat, rfl⟩
      simp only [List.length_append, length_le32, List.length_singleton] at hle hba ⊢
      refine ⟨hk, _, _, ⟨rfl, rfl⟩, _, _, hi.1, hi.2, _, _, ⟨⟨?_, rfl⟩, rfl⟩, ?_, (), _,
        (yields_elementLoop ?_ (reads_validateValue (hdoc hk)) ?_ _).mpr
          ⟨keys, body, hbody, ?_, hba, rfl, ?_⟩, _, _, ⟨rfl, rfl⟩, ?_, trivial, ?_⟩
      all_goals
        first
        | exact fun hc => ⟨hkeys hc, fun _ _ => List.not_mem_nil⟩
        | rw [T.usizeOfI32_of_nonneg (by omega) (by omega), Int.toNat_natCast]; omega
        | omega

/-- Unfolding enough levels, `validate_doc` reads exactly the documents of its level. -/
theorem reads_validateDocAt (levels depth : ℕ) (hl : maxNesting + 1 < depth + levels) :
    Reads buf (validateDocAt buf checkDupes levels depth)
      (fun _ v => Doc (rules checkDupes) depth v) := by
  induction levels generalizing depth with
  | zero =>
    intro p hp u q
    constructor
    · intro h
      exact absurd h (yields_stop _ _ _ _)
    · intro h
      obtain ⟨v, hv, -, -⟩ := h
      cases hv with
      | document hk _ _ _ =>
        simp only [rules] at hk
        omega
  | succ levels ih =>
    apply reads_documentBody
    intro hk
    rw [nestedDoc_eq _ hk]
    exact ih (depth + 1) (by omega)

theorem reads_validateDoc (depth : ℕ) (checkDupes : Bool) :
    Reads buf (validateDoc buf depth checkDupes) (fun _ v => Doc (rules checkDupes) depth v) :=
  reads_validateDocAt _ _ (by omega)

/-- A buffer is consumed to its end exactly when all of it is a document. -/
theorem yields_validateDoc_full (b : Bytes T) (depth : ℕ) (checkDupes : Bool) :
    Yields (validateDoc b depth checkDupes) 0 () b.len ↔ Doc (rules checkDupes) depth b.data := by
  rw [reads_validateDoc depth checkDupes 0 (Nat.zero_le _)]
  constructor
  · intro h
    obtain ⟨v, hv, hat, hl⟩ := h
    have hall : At b 0 b.data := List.prefix_rfl
    have he : v = b.data := hat.eq_of_length hall (by simp only [Bytes.len] at hl; omega)
    rwa [he] at hv
  · intro h
    exact ⟨b.data, h, List.prefix_rfl, by simp [Bytes.len]⟩

theorem validate_ok_iff_yields (b : Bytes T) :
    validate b = .ok () ↔ Yields (validateDoc b 0 true) 0 () b.len := by
  have h (q : ℕ) : Yields (do
      validateDoc b 0 true
      let pos ← position
      if pos ≠ b.len then fail .trailingBytes else pure ()) 0 () q ↔
      Yields (validateDoc b 0 true) 0 () b.len ∧ q = b.len := by
    simp only [yields_bind, yields_position, yields_ite_fail, yields_pure, not_not]
    constructor
    · intro h
      obtain ⟨_, _, hd, _, _, ⟨rfl, rfl⟩, rfl, -, rfl⟩ := h
      exact ⟨hd, rfl⟩
    · intro h
      obtain ⟨hd, rfl⟩ := h
      exact ⟨(), _, hd, _, _, ⟨rfl, rfl⟩, rfl, trivial, rfl⟩
  constructor
  · intro hv
    exact ((h _).mp ⟨hv, rfl⟩).1
  · intro hd
    exact ((h _).mpr ⟨hd, rfl⟩).1

/-- Acceptance is membership in the grammar, for every byte string. -/
theorem validate_ok_iff_document (b : Bytes T) :
    validate b = .ok () ↔ Doc (rules true) 0 b.data := by
  rw [validate_ok_iff_yields, yields_validateDoc_full]

end Documents

end VgiBson.ValidatorGrammar
