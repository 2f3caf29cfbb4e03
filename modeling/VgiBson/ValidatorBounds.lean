import VgiBson.CursorBounds
import VgiBson.ValidatorGrammar

/-! # The validator is total, in bounds and does bounded work

Every reader is bounded at every position; the element loop needs one round of credit, which the
length prefix of its document has already paid for. -/

namespace VgiBson.ValidatorBounds

open MachineBytes CursorWalks CursorLanguages CursorBounds StructuralValidator ValidatorGrammar
  BsonGrammar

variable {T : Target} {buf : Bytes T} {p : ℕ}

theorem checkedAdd_of_le_len {a b : ℕ} (h : a + b ≤ buf.len) : T.checkedAdd a b = some (a + b) :=
  Target.checkedAdd_eq_some_iff.mpr ⟨h.trans buf.len_lt_usizeMax.le, rfl⟩

theorem getRange_of_le {lo hi : ℕ} (h : lo ≤ hi) (h' : hi ≤ buf.len) :
    buf.getRange lo hi = some (buf.sub lo hi) :=
  Bytes.getRange_eq_some_iff.mpr ⟨h, h', rfl⟩

/-- A skip moves by `n`, or reports truncation where it stands. -/
theorem run_skip (n p : ℕ) : (skip buf n).run p =
    if p + n ≤ buf.len then ⟨.ok (), p + n, 0, 0⟩ else ⟨.error (.error .truncated), p, 0, 0⟩ := by
  by_cases h : p + n ≤ buf.len
  · simp only [skip, run_position_bind, checkedAdd_of_le_len h, okOr_some, pure_bind, if_pos h,
      if_neg (Nat.not_lt.mpr h)]
    rfl
  · rw [if_neg h]
    cases hc : T.checkedAdd p n with
    | none => simp only [skip, run_position_bind, hc, okOr_none, fail_bind]; rfl
    | some q =>
      obtain ⟨-, rfl⟩ := Target.checkedAdd_eq_some_iff.mp hc
      simp only [skip, run_position_bind, hc, okOr_some, pure_bind, if_pos (Nat.not_le.mp h)]
      rfl

/-- Reading a length moves by four, or reports truncation where it stands. -/
theorem run_readI32 (p : ℕ) :
    (p + 4 ≤ buf.len ∧ ∃ i, i < 2 ^ 31 ∧ (readI32 buf).run p = ⟨.ok i, p + 4, 0, 0⟩) ∨
      (readI32 buf).run p = ⟨.error (.error .truncated), p, 0, 0⟩ := by
  by_cases h : p + 4 ≤ buf.len
  · left
    refine ⟨h, ?_⟩
    have hl : (buf.sub p (p + 4)).data.length = 4 := by
      simp only [Bytes.len] at h
      simp only [Bytes.data_sub, List.length_take, List.length_drop]
      omega
    obtain ⟨b₀, b₁, b₂, b₃, hd⟩ := exists_of_length_four hl
    refine ⟨i32FromLeBytes b₀ b₁ b₂ b₃, i32FromLeBytes_lt b₀ b₁ b₂ b₃, ?_⟩
    simp only [readI32, run_position_bind, checkedAdd_of_le_len h, okOr_some, pure_bind,
      getRange_of_le (Nat.le_add_right p 4) h, run_moveTo_bind, index, hd,
      List.getElem?_cons_zero, List.getElem?_cons_succ, orPanic_some, run_pure]
  · right
    cases hc : T.checkedAdd p 4 with
    | none => simp only [readI32, run_position_bind, hc, okOr_none, fail_bind]; rfl
    | some q =>
      obtain ⟨-, rfl⟩ := Target.checkedAdd_eq_some_iff.mp hc
      have hg : buf.getRange p (p + 4) = none := by simp [Bytes.getRange, h]
      simp only [readI32, run_position_bind, hc, hg, okOr_some, okOr_none, pure_bind, fail_bind]
      rfl

theorem bounded_skip (n p : ℕ) : BoundedAt buf.len 0 (skip buf n) p := by
  by_cases h : p + n ≤ buf.len
  · constructor <;> simp [run_skip, h, returned_ok]
  · constructor <;> simp [run_skip, h, returned_error]

theorem bounded_readI32 (p : ℕ) : BoundedAt buf.len 0 (readI32 buf) p := by
  rcases @run_readI32 T buf p with ⟨h, i, -, hr⟩ | hr
  · constructor <;> simp [hr, h, returned_ok]
  · constructor <;> simp [hr, returned_error]

theorem run_advance {n : ℕ} (h : p + n ≤ buf.len) :
    (advance T n : Walk DecodeError Unit).run p = ⟨.ok (), p + n, 0, 0⟩ := by
  simp only [advance, run_position_bind, addUsize, checkedAdd_of_le_len h, orPanic_some, pure_bind]
  rfl

theorem bounded_advance {n : ℕ} (h : p + n ≤ buf.len) :
    BoundedAt buf.len 0 (advance T n : Walk DecodeError Unit) p := by
  constructor <;> simp [run_advance h, h, returned_ok]

theorem bounded_readCstringStr (p : ℕ) : BoundedAt buf.len 0 (readCstringStr buf) p := by
  apply BoundedAt.position_bind
  cases hr : buf.getFrom p with
  | none => exact .fail _
  | some rest =>
    obtain ⟨hp, -, rfl⟩ := Bytes.getRange_eq_some_iff.mp hr
    simp only [okOr_some, pure_bind]
    cases hn : (buf.sub p buf.len).data.findIdx? (· = 0) with
    | none => exact .fail _
    | some nul =>
      -- the NUL lies inside the rest of the buffer, so neither slice nor sum can fail
      have hlt : nul < (buf.sub p buf.len).len := (List.findIdx?_eq_some_iff_getElem.mp hn).1
      have hrest : (buf.sub p buf.len).len = buf.len - p := by simp [Bytes.len]
      have hin : p + (nul + 1) ≤ buf.len := by omega
      have hadd : T.checkedAdd nul 1 = some (nul + 1) :=
        @checkedAdd_of_le_len T buf _ _ (by omega)
      simp only [okOr_some, pure_bind, range, getRange_of_le (Nat.zero_le nul) hlt.le,
        orPanic_some, addUsize, hadd]
      cases hu : fromUtf8 ((buf.sub p buf.len).sub 0 nul).data with
      | none => exact .fail _
      | some s =>
        simp only [okOr_some, pure_bind]
        exact (bounded_advance hin).bind_same fun _ _ => .pure s

theorem bounded_readCstring (p : ℕ) : BoundedAt buf.len 0 (readCstring buf) p := by
  rw [readCstring_eq]
  exact (bounded_readCstringStr p).bind_same fun _ _ => .pure ()

/-- The lengths read are 32-bit, so a checked lower bound makes them exact as `usize`. -/
theorem usizeOfI32_of_read {i : ℤ} {lo : ℕ} (hi : ((readI32 buf).run p).out = .ok i)
    (hlo : (lo : ℤ) ≤ i) : lo ≤ T.usizeOfI32 i := by
  rcases @run_readI32 T buf p with ⟨-, j, hj, hr⟩ | hr
  · rw [hr] at hi
    cases hi
    rw [T.usizeOfI32_of_nonneg (by omega) hj]
    omega
  · rw [hr] at hi
    cases hi

theorem le_of_skip_ok {n : ℕ} {u : Unit} (h : ((skip buf n).run p).out = .ok u) :
    p + n ≤ buf.len ∧ ((skip buf n).run p).pos = p + n := by
  rw [run_skip] at h ⊢
  split at h
  · next hle =>
    rw [if_pos hle]
    exact ⟨hle, rfl⟩
  · cases h

theorem bounded_readString (p : ℕ) : BoundedAt buf.len 0 (readString buf) p := by
  apply (bounded_readI32 p).bind_same
  intro i hi
  apply BoundedAt.guard
  intro h1
  have hn : 1 ≤ T.usizeOfI32 i := usizeOfI32_of_read hi (by omega)
  apply BoundedAt.position_bind
  apply (bounded_skip _ _).bind_same
  intro _ hs
  obtain ⟨hle, -⟩ := le_of_skip_ok hs
  generalize ((readI32 buf).run p).pos = start at hle hs ⊢
  generalize T.usizeOfI32 i = n at hn hle hs ⊢
  -- the skip has checked the range that the slice and the index below rely on
  have hlen : (buf.sub start (start + n)).len = n := by
    simp only [Bytes.len] at hle
    simp only [Bytes.len, Bytes.data_sub, List.length_take, List.length_drop]
    omega
  have hlast : n - 1 < (buf.sub start (start + n)).data.length := by
    simp only [Bytes.len] at hlen
    omega
  have htext : n - 1 ≤ (buf.sub start (start + n)).len := by omega
  simp only [addUsize, checkedAdd_of_le_len hle, orPanic_some, pure_bind, range,
    getRange_of_le (Nat.le_add_right start n) hle, subUsize, hn, if_true, index,
    List.getElem?_eq_getElem hlast, getRange_of_le (Nat.zero_le (n - 1)) htext]
  apply BoundedAt.guard
  intro _
  cases hu : fromUtf8 ((buf.sub start (start + n)).sub 0 (n - 1)).data with
  | none => exact .fail _
  | some s => exact .pure ()

theorem bounded_readBinary (p : ℕ) : BoundedAt buf.len 0 (readBinary buf) p := by
  apply (bounded_readI32 p).bind_same
  intro i _
  apply BoundedAt.guard
  intro _
  exact (bounded_skip _ _).bind_same fun _ _ => bounded_skip _ _

theorem bounded_readBoolean (p : ℕ) : BoundedAt buf.len 0 (readBoolean buf) p := by
  apply BoundedAt.position_bind
  apply (bounded_skip _ _).bind_same
  intro _ hs
  obtain ⟨hle, -⟩ := le_of_skip_ok hs
  rw [index, List.getElem?_eq_getElem (by simp only [Bytes.len] at hle; omega), orPanic_some,
    pure_bind]
  split
  · exact .pure ()
  · exact .fail _

theorem bounded_readPiece {doc : Walk DecodeError Unit} (hdoc : ∀ p, BoundedAt buf.len 0 doc p)
    (piece : BsonGrammar.Piece) (p : ℕ) : BoundedAt buf.len 0 (readPiece buf doc piece) p := by
  cases piece with
  | raw n => exact bounded_skip n p
  | boolean => exact bounded_readBoolean p
  | text => exact bounded_readString p
  | cstring => exact bounded_readCstring p
  | binary => exact bounded_readBinary p
  | size => exact (bounded_readI32 p).bind_same fun _ _ => .guard fun _ => .pure ()
  | document => exact hdoc p

theorem bounded_readPieces {doc : Walk DecodeError Unit} (hdoc : ∀ p, BoundedAt buf.len 0 doc p)
    (ps : List BsonGrammar.Piece) (p : ℕ) : BoundedAt buf.len 0 (readPieces buf doc ps) p := by
  induction ps generalizing p with
  | nil => exact .pure ()
  | cons piece ps ih => exact (bounded_readPiece hdoc piece p).bind_same fun _ _ => ih _

theorem bounded_validateValue {doc : ℕ → Walk DecodeError Unit} {depth : ℕ}
    (hdoc : ∀ p, BoundedAt buf.len 0 (nestedDoc doc T depth) p) (ty : UInt8) (p : ℕ) :
    BoundedAt buf.len 0 (validateValue buf doc ty depth) p := by
  rw [validateValue_eq_pieces]
  cases BsonGrammar.layout ty with
  | none => exact .fail _
  | some ps => exact bounded_readPieces hdoc ps p

variable {checkDupes : Bool} {value : UInt8 → Walk DecodeError Unit} {docEnd : ℕ}

theorem bounded_noteKey (seen : List String) (key : String) (p : ℕ) :
    BoundedAt buf.len 0 (noteKey checkDupes seen key) p := by
  cases checkDupes with
  | false => exact .pure _
  | true => exact .guard fun _ => .pure _

/-- The loop makes at most one round more than it consumes bytes, and never runs out of fuel. -/
theorem bounded_elementLoop (hend : docEnd ≤ buf.len)
    (hvalue : ∀ ty p, BoundedAt buf.len 0 (value ty) p) {fuel : ℕ} (seen : List String) {p : ℕ}
    (hfuel : docEnd < p + fuel) (hp : p ≤ docEnd) :
    BoundedAt buf.len 1 (elementLoop buf checkDupes value docEnd fuel seen) p := by
  induction fuel generalizing seen p with
  | zero => omega
  | succ fuel ih =>
    apply BoundedAt.round.bind (d := 0)
    intro _ _
    refine ⟨?_, Nat.le_refl _⟩
    change BoundedAt buf.len 0 _ p
    apply BoundedAt.position_bind
    apply BoundedAt.guard
    intro hlt
    have hi : p < buf.data.length := by
      simp only [Bytes.len] at hend
      omega
    have hadv : p + 1 ≤ buf.len := by omega
    simp only [index, List.getElem?_eq_getElem hi, orPanic_some, pure_bind]
    -- the type byte consumed here pays for the next round
    apply (bounded_advance hadv).bind (d := 1)
    intro _ _
    rw [run_advance hadv]
    refine ⟨?_, Nat.le_refl _⟩
    change BoundedAt buf.len 1 _ (p + 1)
    split
    · exact (BoundedAt.pure ()).weaken (Nat.zero_le 1)
    · have hkey : BoundedAt buf.len 0 (readCstringStr buf) (p + 1) := bounded_readCstringStr _
      apply hkey.bind_same
      intro key _
      have hnote : BoundedAt buf.len 0 (noteKey checkDupes seen key)
          ((readCstringStr buf).run (p + 1)).pos := bounded_noteKey seen key _
      apply hnote.bind_same
      intro seen' _
      have hval := hvalue buf.data[p] ((noteKey checkDupes seen key).run
        ((readCstringStr buf).run (p + 1)).pos).pos
      apply hval.bind_same
      intro _ _
      have hm := (hkey.mono.trans hnote.mono).trans hval.mono
      apply BoundedAt.position_bind
      apply BoundedAt.guard
      intro hle
      exact ih seen' (by omega) (by omega)

theorem bounded_documentBody {doc : ℕ → Walk DecodeError Unit} {depth : ℕ}
    (hdoc : depth ≤ maxNesting → ∀ p, BoundedAt buf.len 0 (nestedDoc doc T depth) p) (p : ℕ) :
    BoundedAt buf.len 0 (documentBody buf checkDupes doc depth) p := by
  apply BoundedAt.call
  apply BoundedAt.guard
  intro hk
  apply BoundedAt.position_bind
  rcases @run_readI32 T buf p with ⟨_, i, _, hr⟩ | hr
  · -- the four bytes of the length prefix are the credit of the loop
    apply (bounded_readI32 p).bind (d := 4)
    intro j hj
    have h5 : ((5 : ℕ) : ℤ) ≤ j → 5 ≤ T.usizeOfI32 j := usizeOfI32_of_read hj
    rw [hr] at hj ⊢
    cases hj
    refine ⟨?_, Nat.le_refl _⟩
    apply BoundedAt.guard
    intro hi
    have h5 := h5 (by omega)
    cases hc : T.checkedAdd p (T.usizeOfI32 i) with
    | none => exact (BoundedAt.fail _).weaken (Nat.zero_le 4)
    | some docEnd =>
      obtain ⟨-, rfl⟩ := Target.checkedAdd_eq_some_iff.mp hc
      simp only [okOr_some, pure_bind]
      apply BoundedAt.guard
      intro hle
      have hvalue := bounded_validateValue (hdoc (Nat.not_lt.mp hk))
      have hloop : BoundedAt buf.len 1 (elementLoop buf checkDupes
          (fun ty => validateValue buf doc ty depth) (p + T.usizeOfI32 i)
          (p + T.usizeOfI32 i - p) []) (p + 4) :=
        bounded_elementLoop (Nat.not_lt.mp hle) hvalue [] (by omega) (by omega)
      apply (hloop.weaken (by decide : 1 ≤ 4)).bind (d := 0)
      intro _ _
      refine ⟨?_, hloop.paid.trans (by omega)⟩
      apply BoundedAt.position_bind
      apply BoundedAt.guard
      intro _
      exact .pure ()
  · apply (bounded_readI32 p).bind_same
    intro j hj
    rw [hr] at hj
    cases hj

theorem bounded_validateDocAt (levels depth p : ℕ) (hl : maxNesting + 1 < depth + levels)
    (hpos : 0 < levels) : BoundedAt buf.len 0 (validateDocAt buf checkDupes levels depth) p := by
  induction levels generalizing depth p with
  | zero => omega
  | succ levels ih =>
    apply bounded_documentBody
    intro hk q
    rw [nestedDoc_eq _ hk]
    exact ih (depth + 1) q (by omega) (by omega)

/-- `validate_doc` is bounded at every position, also past the end of the buffer. -/
theorem bounded_validateDoc (depth : ℕ) (checkDupes : Bool) (p : ℕ) :
    BoundedAt buf.len 0 (validateDoc buf depth checkDupes) p :=
  bounded_validateDocAt _ _ _ (by omega) (by omega)

theorem shallow_readI32 : Shallow 0 (readI32 buf) :=
  Shallow.position.bind fun _ => (Shallow.okOr _ _).bind fun _ => (Shallow.okOr _ _).bind fun _ =>
    (Shallow.moveTo _).bind fun _ => (Shallow.orPanic _).bind fun _ => (Shallow.orPanic _).bind
      fun _ => (Shallow.orPanic _).bind fun _ => (Shallow.orPanic _).bind fun _ => Shallow.pure _

theorem shallow_skip (n : ℕ) : Shallow 0 (skip buf n) :=
  Shallow.position.bind fun _ => (Shallow.okOr _ _).bind fun _ =>
    Shallow.ite (Shallow.fail _) fun _ => Shallow.moveTo _

theorem shallow_readCstringStr : Shallow 0 (readCstringStr buf) :=
  Shallow.position.bind fun _ => (Shallow.okOr _ _).bind fun _ => (Shallow.okOr _ _).bind fun _ =>
    (Shallow.orPanic _).bind fun _ => (Shallow.okOr _ _).bind fun _ => (Shallow.orPanic _).bind
      fun _ => (Shallow.advance _).bind fun _ => Shallow.pure _

theorem shallow_readString : Shallow 0 (readString buf) :=
  shallow_readI32.bind fun _ => Shallow.ite (Shallow.fail _) fun _ => Shallow.position.bind fun _ =>
    (shallow_skip _).bind fun _ => (Shallow.orPanic _).bind fun _ => (Shallow.orPanic _).bind
      fun _ => (Shallow.orPanic _).bind fun _ => (Shallow.orPanic _).bind fun _ =>
        Shallow.ite (Shallow.fail _) fun _ => (Shallow.orPanic _).bind fun _ =>
          (Shallow.orPanic _).bind fun _ => (Shallow.okOr _ _).bind fun _ => Shallow.pure _

theorem shallow_readPiece {h : ℕ} {doc : Walk DecodeError Unit} (hdoc : Shallow h doc)
    (piece : BsonGrammar.Piece) : Shallow h (readPiece buf doc piece) := by
  cases piece with
  | raw n => exact (shallow_skip n).of_zero
  | boolean =>
    apply Shallow.of_zero
    exact Shallow.position.bind fun _ => (shallow_skip 1).bind fun _ =>
      (Shallow.orPanic _).bind fun _ => Shallow.ite (Shallow.pure _) fun _ => Shallow.fail _
  | text => exact shallow_readString.of_zero
  | cstring =>
    rw [readPiece, readCstring_eq]
    exact (shallow_readCstringStr.bind fun _ => Shallow.pure _).of_zero
  | binary =>
    apply Shallow.of_zero
    exact shallow_readI32.bind fun _ => Shallow.ite (Shallow.fail _) fun _ =>
      (shallow_skip 1).bind fun _ => shallow_skip _
  | size =>
    apply Shallow.of_zero
    exact shallow_readI32.bind fun _ => Shallow.ite (Shallow.fail _) fun _ => Shallow.pure _
  | document => exact hdoc

theorem shallow_readPieces {h : ℕ} {doc : Walk DecodeError Unit} (hdoc : Shallow h doc)
    (ps : List BsonGrammar.Piece) : Shallow h (readPieces buf doc ps) := by
  induction ps with
  | nil => exact (Shallow.pure _).of_zero
  | cons piece ps ih => exact (shallow_readPiece hdoc piece).bind fun _ => ih

theorem shallow_validateValue {h depth : ℕ} {doc : ℕ → Walk DecodeError Unit}
    (hdoc : Shallow h (nestedDoc doc T depth)) (ty : UInt8) :
    Shallow h (validateValue buf doc ty depth) := by
  rw [validateValue_eq_pieces]
  cases BsonGrammar.layout ty with
  | none => exact (Shallow.fail _).of_zero
  | some ps => exact shallow_readPieces hdoc ps

theorem shallow_noteKey (seen : List String) (key : String) :
    Shallow 0 (noteKey checkDupes seen key) :=
  Shallow.ite (Shallow.ite (Shallow.fail _) fun _ => Shallow.pure _) fun _ => Shallow.pure _

theorem shallow_elementLoop {h : ℕ} (hvalue : ∀ ty, Shallow h (value ty)) (fuel : ℕ)
    (seen : List String) : Shallow h (elementLoop buf checkDupes value docEnd fuel seen) := by
  induction fuel generalizing seen with
  | zero => exact (Shallow.stop _).of_zero
  | succ fuel ih =>
    exact Shallow.round.of_zero.bind fun _ => Shallow.position.of_zero.bind fun _ =>
      Shallow.ite (Shallow.fail _).of_zero fun _ => (Shallow.orPanic _).of_zero.bind fun ty =>
        (Shallow.advance _).of_zero.bind fun _ => Shallow.ite (Shallow.pure _).of_zero fun _ =>
          shallow_readCstringStr.of_zero.bind fun _ => (shallow_noteKey _ _).of_zero.bind
            fun _ => (hvalue ty).bind fun _ => Shallow.position.of_zero.bind fun _ =>
              Shallow.ite (Shallow.fail _).of_zero fun _ => ih _

theorem shallow_documentBody {h depth : ℕ} {doc : ℕ → Walk DecodeError Unit}
    (hdoc : depth ≤ maxNesting → Shallow h (nestedDoc doc T depth)) :
    Shallow (h + 1) (documentBody buf checkDupes doc depth) := by
  apply Shallow.call
  apply Shallow.ite (Shallow.fail _).of_zero
  intro hk
  exact Shallow.position.of_zero.bind fun _ => shallow_readI32.of_zero.bind fun _ =>
    Shallow.ite (Shallow.fail _).of_zero fun _ => (Shallow.okOr _ _).of_zero.bind fun _ =>
      Shallow.ite (Shallow.fail _).of_zero fun _ =>
        (shallow_elementLoop (shallow_validateValue (hdoc (Nat.not_lt.mp hk))) _ _).bind fun _ =>
          Shallow.position.of_zero.bind fun _ =>
            Shallow.ite (Shallow.fail _).of_zero fun _ => (Shallow.pure _).of_zero

/-- One call for each level left before the limit, and one that only reports the limit. -/
theorem shallow_validateDocAt (levels depth : ℕ) (hd : depth ≤ maxNesting + 1) :
    Shallow (maxNesting + 2 - depth) (validateDocAt buf checkDupes levels depth) := by
  induction levels generalizing depth with
  | zero => exact (Shallow.stop _).of_zero
  | succ levels ih =>
    rcases Nat.lt_or_ge maxNesting depth with hk | hk
    · obtain rfl : depth = maxNesting + 1 := by omega
      exact shallow_documentBody fun h => absurd h (by omega)
    · have hh : maxNesting + 2 - depth = maxNesting + 2 - (depth + 1) + 1 := by omega
      rw [hh]
      apply shallow_documentBody
      intro _
      rw [nestedDoc_eq _ hk]
      exact ih (depth + 1) (by omega)

/-- Past the limit a call only reports it. -/
theorem run_validateDoc_of_gt {depth : ℕ} (hd : maxNesting < depth) (checkDupes : Bool) (p : ℕ) :
    (validateDoc buf depth checkDupes).run p = ⟨.error (.error .nestingLimit), p, 0, 1⟩ := by
  simp only [validateDoc, validateDocAt, documentBody, if_pos hd]
  rfl

/-- A call that starts past the end of the buffer makes no round. -/
theorem run_validateDoc_of_len_lt {depth : ℕ} (hd : depth ≤ maxNesting) (checkDupes : Bool)
    (hp : buf.len < p) : (validateDoc buf depth checkDupes).run p =
      ⟨.error (.error .truncated), p, 0, 1⟩ := by
  rcases @run_readI32 T buf p with ⟨h, -⟩ | hr
  · omega
  · simp only [validateDoc, validateDocAt, documentBody, if_neg (Nat.not_lt.mpr hd), call,
      run_position_bind, run_bind_of_error hr]

/-- On success the position has moved by the declared length. -/
theorem declared_of_validateDoc_ok {depth : ℕ} {checkDupes : Bool} {u : Unit}
    (h : ((validateDoc buf depth checkDupes).run p).out = .ok u) :
    ∃ declared : ℕ, 5 ≤ declared ∧ ((readI32 buf).run p).out = .ok (declared : ℤ) ∧
      ((validateDoc buf depth checkDupes).run p).pos = p + declared := by
  have hd : depth ≤ maxNesting := by
    by_contra hd
    rw [run_validateDoc_of_gt (Nat.not_le.mp hd)] at h
    cases h
  have hp : p ≤ buf.len := by
    by_contra hp
    rw [run_validateDoc_of_len_lt hd checkDupes (Nat.not_le.mp hp)] at h
    cases h
  obtain ⟨d, hdoc, hat, hpos⟩ := (reads_validateDoc depth checkDupes p hp _ _).mp ⟨h, rfl⟩
  obtain ⟨h5, hlt, r, hr⟩ := hdoc.prefix_length
  rw [hr] at hat
  have hi := (yields_readI32_ge (by decide : (0 : ℤ) ≤ 5) hp _ _).mpr
    ⟨d.length, by omega, hlt, rfl, (at_append.mp hat).1, rfl⟩
  exact ⟨d.length, h5, hi.1.1, hpos⟩

/-- The validator is total, in bounds and does bounded work, on every buffer and from every
position. -/
theorem validateDoc_total (buf : Bytes T) (depth : ℕ) (checkDupes : Bool) (pos : ℕ) :
    Returned ((validateDoc buf depth checkDupes).run pos).out ∧
    (pos ≤ buf.len → pos ≤ ((validateDoc buf depth checkDupes).run pos).pos ∧
      ((validateDoc buf depth checkDupes).run pos).pos ≤ buf.len) ∧
    (((validateDoc buf depth checkDupes).run pos).out = .ok () →
      ∃ declared : ℕ, 5 ≤ declared ∧ ((readI32 buf).run pos).out = .ok (declared : ℤ) ∧
        ((validateDoc buf depth checkDupes).run pos).pos = pos + declared) ∧
    ((validateDoc buf 0 checkDupes).run pos).height ≤ 258 ∧
    (maxNesting < depth → ((validateDoc buf depth checkDupes).run pos).out =
      .error (.error .nestingLimit) ∧ ((validateDoc buf depth checkDupes).run pos).height = 1) ∧
    ((validateDoc buf depth checkDupes).run pos).rounds ≤ buf.len - pos := by
  have hb := @bounded_validateDoc T buf depth checkDupes pos
  refine ⟨hb.returned, fun hp => ⟨hb.mono, hb.inside hp⟩, declared_of_validateDoc_ok, ?_, ?_, ?_⟩
  · exact shallow_validateDocAt _ 0 (Nat.zero_le _) pos
  · intro hd
    rw [run_validateDoc_of_gt hd]
    exact ⟨rfl, rfl⟩
  · rcases Nat.lt_or_ge buf.len pos with hp | hp
    · rcases Nat.lt_or_ge maxNesting depth with hd | hd
      · rw [run_validateDoc_of_gt hd]
        exact Nat.zero_le _
      · rw [run_validateDoc_of_len_lt hd checkDupes hp]
        exact Nat.zero_le _
    · have hin := hb.inside hp
      have hpaid := hb.paid
      omega

end VgiBson.ValidatorBounds
