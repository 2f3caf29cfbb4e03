import VgiBson.CursorTwins
import VgiBson.ProjectedKeys
import VgiBson.SequenceSplitter

/-! # One program on every target

The worker is built for 64-bit machines and for browsers, whose pointers have 32 bits. On input that
both can hold the two builds make the same runs: no sum overflows before a bounds check fails. -/

namespace VgiBson.TargetIndependence

open MachineBytes CursorWalks CursorBounds CursorTwins StructuralValidator ValidatorGrammar
  ValidatorBounds BsonValues SequenceSplitter DocumentDecoding CrateAssumptions FieldProjection
  PathWalks DottedPaths ProjectedKeys BsonEncoding

variable {T T' : Target} {buf : Bytes T} {buf' : Bytes T'}

theorem len_eq (h : buf.data = buf'.data) : buf.len = buf'.len := congrArg List.length h

theorem data_sub_eq (h : buf.data = buf'.data) (lo hi : ℕ) :
    (buf.sub lo hi).data = (buf'.sub lo hi).data := by
  rw [Bytes.data_sub, Bytes.data_sub, h]

theorem twins_skip (h : buf.data = buf'.data) (n : ℕ) :
    Twins buf.len (skip buf n) (skip buf' n) := by
  apply Twins.of_bounded (bounded_skip n)
  intro p _
  rw [run_skip, run_skip, len_eq h]

theorem run_readI32_of_le {p : ℕ} (hp : p + 4 ≤ buf.len) {b₀ b₁ b₂ b₃ : UInt8}
    (hd : (buf.sub p (p + 4)).data = [b₀, b₁, b₂, b₃]) :
    (readI32 buf).run p = ⟨.ok (i32FromLeBytes b₀ b₁ b₂ b₃), p + 4, 0, 0⟩ := by
  simp only [readI32, run_position_bind, checkedAdd_of_le_len hp, okOr_some, pure_bind,
    getRange_of_le (Nat.le_add_right p 4) hp, run_moveTo_bind, index, hd,
    List.getElem?_cons_zero, List.getElem?_cons_succ, orPanic_some, run_pure]

theorem run_readI32_of_lt {p : ℕ} (hp : buf.len < p + 4) :
    (readI32 buf).run p = ⟨.error (.error .truncated), p, 0, 0⟩ := by
  rcases @run_readI32 T buf p with ⟨h4, -⟩ | hr
  · exact absurd h4 (Nat.not_le.mpr hp)
  · exact hr

theorem same_readI32 (h : buf.data = buf'.data) (p : ℕ) :
    (readI32 buf).run p = (readI32 buf').run p := by
  by_cases hp : p + 4 ≤ buf.len
  · have hl : (buf.sub p (p + 4)).data.length = 4 := by
      simp only [Bytes.len] at hp
      simp only [Bytes.data_sub, List.length_take, List.length_drop]
      omega
    obtain ⟨b₀, b₁, b₂, b₃, hd⟩ := exists_of_length_four hl
    rw [run_readI32_of_le hp hd,
      run_readI32_of_le (len_eq h ▸ hp) ((data_sub_eq h p (p + 4)).symm.trans hd)]
  · rw [run_readI32_of_lt (Nat.not_le.mp hp), run_readI32_of_lt (len_eq h ▸ Nat.not_le.mp hp)]

/-- What follows a length only matters for lengths of 32 bits. -/
theorem twins_readI32_bind {β : Type} (h : buf.data = buf'.data) {f g : ℤ → Walk DecodeError β}
    (hf : ∀ i < 2 ^ 31, Twins buf.len (f i) (g i)) :
    Twins buf.len (readI32 buf >>= f) (readI32 buf' >>= g) := by
  constructor
  · intro p hp
    rw [run_bind, run_bind, ← same_readI32 h p]
    rcases @run_readI32 T buf p with ⟨h4, i, hi, hr⟩ | hr
    · rw [hr, Report.andThen_ok rfl, Report.andThen_ok rfl, (hf i hi).same _ h4]
    · rw [hr]
      rfl
  · intro p hp
    rw [run_bind]
    rcases @run_readI32 T buf p with ⟨h4, i, hi, hr⟩ | hr
    · rw [hr, Report.andThen_ok rfl]
      exact (hf i hi).inside _ h4
    · rw [hr]
      exact hp

/-- The run of a cstring in terms of the bytes that are left. -/
theorem run_readCstringStr {p : ℕ} (hp : p ≤ buf.len) : (readCstringStr buf).run p =
    match (buf.data.drop p).findIdx? (· = 0) with
    | none => ⟨.error (.error .badCstring), p, 0, 0⟩
    | some nul =>
      match fromUtf8 ((buf.data.drop p).take nul) with
      | none => ⟨.error (.error .badUtf8), p, 0, 0⟩
      | some s => ⟨.ok s, p + (nul + 1), 0, 0⟩ := by
  have hrest : (buf.sub p buf.len).data = buf.data.drop p := by
    rw [Bytes.data_sub]
    exact List.take_of_length_le (by simp [Bytes.len])
  have hfrom : buf.getFrom p = some (buf.sub p buf.len) := getRange_of_le hp (Nat.le_refl _)
  simp only [readCstringStr, run_position_bind, hfrom, okOr_some, pure_bind, hrest]
  cases hn : (buf.data.drop p).findIdx? (· = 0) with
  | none => rfl
  | some nul =>
    have hlt : nul < (buf.data.drop p).length := (List.findIdx?_eq_some_iff_getElem.mp hn).1
    have hle : nul ≤ (buf.sub p buf.len).len := by
      rw [Bytes.len, hrest]
      exact hlt.le
    have hin : p + (nul + 1) ≤ buf.len := by
      rw [List.length_drop] at hlt
      simp only [Bytes.len]
      omega
    have hadd : T.checkedAdd nul 1 = some (nul + 1) := @checkedAdd_of_le_len T buf _ _ (by omega)
    have htext : ((buf.sub p buf.len).sub 0 nul).data = (buf.data.drop p).take nul := by
      rw [Bytes.data_sub, hrest, List.drop_zero, Nat.sub_zero]
    simp only [okOr_some, pure_bind, range, getRange_of_le (Nat.zero_le nul) hle, orPanic_some,
      htext]
    cases fromUtf8 ((buf.data.drop p).take nul) with
    | none => rfl
    | some s =>
      simp only [okOr_some, pure_bind, addUsize, hadd, orPanic_some]
      rw [run_bind, run_advance hin, Report.andThen_ok rfl]
      rfl

theorem twins_readCstringStr (h : buf.data = buf'.data) :
    Twins buf.len (readCstringStr buf) (readCstringStr buf') := by
  apply Twins.of_bounded bounded_readCstringStr
  intro p hp
  rw [run_readCstringStr hp, run_readCstringStr (len_eq h ▸ hp), h]

theorem twins_readCstring (h : buf.data = buf'.data) :
    Twins buf.len (readCstring buf) (readCstring buf') := by
  rw [readCstring_eq, readCstring_eq]
  exact (twins_readCstringStr h).bind fun _ => .pure ()

/-- What `read_string` does behind the length `n` that ends at `start`. -/
def readText (buf : Bytes T) (start n : ℕ) : Walk DecodeError Unit := do
  skip buf n
  let stop ← addUsize T start n
  let bytes ← range buf start stop
  let last ← subUsize n 1
  let nul ← index bytes last
  if nul ≠ 0 then fail .badCstring else
  let last ← subUsize n 1
  let text ← range bytes 0 last
  let _ ← okOr (fromUtf8 text.data) .badUtf8
  pure ()

theorem run_readString (p : ℕ) : (readString buf).run p =
    (readI32 buf >>= fun len => if len < 1 then fail .lengthMismatch else
      position >>= fun start => readText buf start (T.usizeOfI32 len)).run p := rfl

/-- The run behind the length in terms of the bytes that are left. -/
theorem run_readText {start n : ℕ} (hn : 1 ≤ n) : (readText buf start n).run start =
    if start + n ≤ buf.len then
      if ((buf.data.drop start).take n)[n - 1]? = some 0 then
        match fromUtf8 (((buf.data.drop start).take n).take (n - 1)) with
        | none => ⟨.error (.error .badUtf8), start + n, 0, 0⟩
        | some _ => ⟨.ok (), start + n, 0, 0⟩
      else ⟨.error (.error .badCstring), start + n, 0, 0⟩
    else ⟨.error (.error .truncated), start, 0, 0⟩ := by
  by_cases hle : start + n ≤ buf.len
  · have hdata : (buf.sub start (start + n)).data = (buf.data.drop start).take n := by
      rw [Bytes.data_sub, Nat.add_sub_cancel_left]
    have hlen : (buf.sub start (start + n)).len = n := by
      simp only [Bytes.len] at hle
      simp only [Bytes.len, Bytes.data_sub, List.length_take, List.length_drop]
      omega
    have hlast : n - 1 < (buf.sub start (start + n)).data.length := by
      simp only [Bytes.len] at hlen
      omega
    have htext : n - 1 ≤ (buf.sub start (start + n)).len := by omega
    have htake : ((buf.sub start (start + n)).sub 0 (n - 1)).data =
        (buf.sub start (start + n)).data.take (n - 1) := by
      rw [Bytes.data_sub _ 0, List.drop_zero, Nat.sub_zero]
    rw [readText, run_bind, run_skip, if_pos hle, Report.andThen_ok rfl, if_pos hle, ← hdata]
    simp only [addUsize, checkedAdd_of_le_len hle, orPanic_some, pure_bind, range,
      getRange_of_le (Nat.le_add_right start n) hle, subUsize, hn, if_true, index,
      List.getElem?_eq_getElem hlast, getRange_of_le (Nat.zero_le (n - 1)) htext, htake,
      Option.some.injEq]
    generalize (buf.sub start (start + n)).data = bytes at hlast ⊢
    by_cases hnul : bytes[n - 1] = 0
    · simp only [hnul, ne_eq, not_true_eq_false, if_false, if_true]
      cases fromUtf8 (bytes.take (n - 1)) <;> rfl
    · simp only [ne_eq, hnul, not_false_eq_true, if_true, if_false]
      rfl
  · rw [readText, run_bind, run_skip, if_neg hle, if_neg hle]
    rfl

theorem twins_readString (h : buf.data = buf'.data) :
    Twins buf.len (readString buf) (readString buf') := by
  apply Twins.of_bounded bounded_readString
  intro p hp
  rw [run_readString, run_readString, run_bind, run_bind, ← same_readI32 h p]
  rcases @run_readI32 T buf p with ⟨h4, i, hi, hr⟩ | hr
  · rw [hr, Report.andThen_ok rfl, Report.andThen_ok rfl]
    by_cases h1 : i < 1
    · rw [if_pos h1, if_pos h1]
    · have hn : 1 ≤ i.toNat := by omega
      rw [if_neg h1, if_neg h1, T.usizeOfI32_of_nonneg (by omega) hi,
        T'.usizeOfI32_of_nonneg (by omega) hi]
      simp only [run_position_bind, run_readText hn, len_eq h, h]
  · rw [hr]
    rfl

theorem twins_readBinary (h : buf.data = buf'.data) :
    Twins buf.len (readBinary buf) (readBinary buf') := by
  apply twins_readI32_bind h
  intro i hi
  apply Twins.guard
  intro h0
  rw [T.usizeOfI32_of_nonneg (by omega) hi, T'.usizeOfI32_of_nonneg (by omega) hi]
  exact (twins_skip h 1).bind fun _ => twins_skip h _

theorem twins_readBoolean (h : buf.data = buf'.data) :
    Twins buf.len (readBoolean buf) (readBoolean buf') := by
  apply Twins.of_bounded bounded_readBoolean
  intro p _
  rw [readBoolean, readBoolean, run_position_bind, run_position_bind, run_bind, run_bind, run_skip,
    run_skip, len_eq h]
  by_cases hp : p + 1 ≤ buf'.len
  · rw [if_pos hp, Report.andThen_ok rfl, Report.andThen_ok rfl, index, index, h]
  · rw [if_neg hp]
    rfl

variable {checkDupes : Bool} {doc doc' : ℕ → Walk DecodeError Unit} {depth : ℕ}

theorem twins_readPiece (h : buf.data = buf'.data) {x y : Walk DecodeError Unit}
    (hdoc : Twins buf.len x y) (piece : BsonGrammar.Piece) :
    Twins buf.len (readPiece buf x piece) (readPiece buf' y piece) := by
  cases piece with
  | raw n => exact twins_skip h n
  | boolean => exact twins_readBoolean h
  | text => exact twins_readString h
  | cstring => exact twins_readCstring h
  | binary => exact twins_readBinary h
  | size => exact twins_readI32_bind h fun _ _ => .guard fun _ => .pure ()
  | document => exact hdoc

theorem twins_readPieces (h : buf.data = buf'.data) {x y : Walk DecodeError Unit}
    (hdoc : Twins buf.len x y) (ps : List BsonGrammar.Piece) :
    Twins buf.len (readPieces buf x ps) (readPieces buf' y ps) := by
  induction ps with
  | nil => exact .pure ()
  | cons piece ps ih => exact (twins_readPiece h hdoc piece).bind fun _ => ih

/-- Where the next depth does not overflow, nested calls that are twins make values twins. -/
theorem twins_validateValue (h : buf.data = buf'.data) (hd : depth ≤ maxNesting)
    (hdoc : ∀ d, Twins buf.len (doc d) (doc' d)) (ty : UInt8) :
    Twins buf.len (validateValue buf doc ty depth) (validateValue buf' doc' ty depth) := by
  rw [validateValue_eq_pieces, validateValue_eq_pieces, nestedDoc_eq _ hd, nestedDoc_eq _ hd]
  cases BsonGrammar.layout ty with
  | none => exact .fail _
  | some ps => exact twins_readPieces h (hdoc _) ps

theorem twins_noteKey (seen : List String) (key : String) :
    Twins buf.len (noteKey checkDupes seen key) (noteKey checkDupes seen key) := by
  cases checkDupes with
  | false => exact .pure _
  | true => exact .guard fun _ => .pure _

theorem twins_elementLoop (h : buf.data = buf'.data) {value value' : UInt8 → Walk DecodeError Unit}
    (hvalue : ∀ ty, Twins buf.len (value ty) (value' ty)) {docEnd : ℕ} (hend : docEnd ≤ buf.len)
    (fuel : ℕ) (seen : List String) : Twins buf.len
      (elementLoop buf checkDupes value docEnd fuel seen)
      (elementLoop buf' checkDupes value' docEnd fuel seen) := by
  induction fuel generalizing seen with
  | zero => exact .stop _
  | succ fuel ih =>
    have hround : Twins buf.len (round : Walk DecodeError Unit) round :=
      ⟨fun _ _ => rfl, fun _ hp => hp⟩
    apply hround.bind
    intro _
    apply Twins.position_run
    intro p hp
    by_cases hge : p ≥ docEnd
    · rw [if_pos hge, if_pos hge]
      exact ⟨rfl, hp⟩
    · have hi : p < buf.data.length := by
        simp only [Bytes.len] at hend
        omega
      have hi' : p < buf'.data.length := h ▸ hi
      have hstep : p + 1 ≤ buf.len := by omega
      have hrest : Twins buf.len
          (if buf.data[p] = 0x00 then pure () else do
            let key ← readCstringStr buf
            let seen ← noteKey checkDupes seen key
            value buf.data[p]
            let pos ← position
            if pos > docEnd then fail .lengthMismatch else
            elementLoop buf checkDupes value docEnd fuel seen)
          (if buf.data[p] = 0x00 then pure () else do
            let key ← readCstringStr buf'
            let seen ← noteKey checkDupes seen key
            value' buf.data[p]
            let pos ← position
            if pos > docEnd then fail .lengthMismatch else
            elementLoop buf' checkDupes value' docEnd fuel seen) := by
        split
        · exact .pure ()
        · apply (twins_readCstringStr h).bind
          intro key
          apply (twins_noteKey seen key).bind
          intro seen'
          apply (hvalue _).bind
          intro _
          apply Twins.position_bind
          intro _ _
          exact Twins.guard fun _ => ih seen'
      have hbyte : buf'.data[p] = buf.data[p] := by simp only [h]
      simp only [if_neg hge, index, List.getElem?_eq_getElem hi, List.getElem?_eq_getElem hi',
        orPanic_some, pure_bind, hbyte]
      rw [run_bind, run_bind, @run_advance T buf p 1 hstep,
        @run_advance T' buf' p 1 (len_eq h ▸ hstep), Report.andThen_ok rfl, Report.andThen_ok rfl]
      dsimp only
      rw [← hrest.same _ hstep]
      exact ⟨rfl, hrest.inside _ hstep⟩

/-- The declared end is checked against the buffer, so the sum need not fit the target. -/
theorem declaredEnd_bind {β : Type} (buf : Bytes T) (start n : ℕ) (f : ℕ → Walk DecodeError β) :
    (okOr (T.checkedAdd start n) .truncated >>= fun docEnd =>
      if docEnd > buf.len then fail .truncated else f docEnd) =
    if start + n ≤ buf.len then f (start + n) else fail .truncated := by
  by_cases hle : start + n ≤ buf.len
  · rw [checkedAdd_of_le_len hle, okOr_some, pure_bind, if_neg (Nat.not_lt.mpr hle), if_pos hle]
  · rw [if_neg hle]
    cases hc : T.checkedAdd start n with
    | none => rfl
    | some stop =>
      obtain ⟨-, rfl⟩ := Target.checkedAdd_eq_some_iff.mp hc
      rw [okOr_some, pure_bind, if_pos (Nat.not_le.mp hle)]

theorem twins_documentBody (h : buf.data = buf'.data)
    (hdoc : ∀ d, Twins buf.len (doc d) (doc' d)) (depth : ℕ) : Twins buf.len
      (documentBody buf checkDupes doc depth) (documentBody buf' checkDupes doc' depth) := by
  apply Twins.call
  apply Twins.guard
  intro hd
  apply Twins.position_bind
  intro docStart _
  apply twins_readI32_bind h
  intro declared hlt
  apply Twins.guard
  intro h5
  rw [T.usizeOfI32_of_nonneg (by omega) hlt, T'.usizeOfI32_of_nonneg (by omega) hlt,
    declaredEnd_bind, declaredEnd_bind, ← len_eq h]
  split
  · next hle =>
    have hvalue := twins_validateValue h (Nat.not_lt.mp hd) hdoc
    apply (twins_elementLoop h hvalue hle _ []).bind
    intro _
    apply Twins.position_bind
    intro _ _
    exact Twins.guard fun _ => .pure ()
  · exact .fail _

theorem twins_validateDoc (h : buf.data = buf'.data) (depth : ℕ) (checkDupes : Bool) :
    Twins buf.len (validateDoc buf depth checkDupes) (validateDoc buf' depth checkDupes) := by
  have hlevels : ∀ levels depth, Twins buf.len (validateDocAt buf checkDupes levels depth)
      (validateDocAt buf' checkDupes levels depth) := by
    intro levels
    induction levels with
    | zero => exact fun _ => .stop _
    | succ levels ih => exact twins_documentBody h ih
  exact hlevels _ depth

theorem validate_congr (h : buf.data = buf'.data) : validate buf = validate buf' := by
  have hwalk : Twins buf.len
      (validateDoc buf 0 true >>= fun _ => position >>= fun pos =>
        if pos ≠ buf.len then fail .trailingBytes else (pure () : Walk DecodeError Unit))
      (validateDoc buf' 0 true >>= fun _ => position >>= fun pos =>
        if pos ≠ buf'.len then fail .trailingBytes else pure ()) := by
    apply (twins_validateDoc h 0 true).bind
    intro _
    apply Twins.position_bind
    intro _ _
    rw [len_eq h]
    exact Twins.guard fun _ => .pure ()
  exact congrArg Report.out (hwalk.same 0 (Nat.zero_le _))

theorem precheck_congr (h : buf.data = buf'.data) : precheck buf = precheck buf' :=
  congrArg Report.out ((twins_validateDoc h 0 false).same 0 (Nat.zero_le _))

theorem wellFormed_congr (h : buf.data = buf'.data) : wellFormed buf = wellFormed buf' := by
  rw [wellFormed, wellFormed, validate_congr h]

/-- A document and its position, as plain bytes. -/
def seqEntry (d : SeqDoc T) : ℤ × List UInt8 := (d.idx, d.doc.data)

theorem map_seqEntry_numbered {ds : List (Bytes T)} {ds' : List (Bytes T')}
    (h : contents ds = contents ds') (i : ℕ) :
    (numbered i ds).map seqEntry = (numbered i ds').map seqEntry := by
  induction ds generalizing ds' i with
  | nil =>
    obtain rfl := List.map_eq_nil_iff.mp h.symm
    rfl
  | cons d ds ih =>
    obtain ⟨d', ds', rfl, hd, hds⟩ := List.map_eq_cons_iff.mp h.symm
    rw [numbered, numbered, List.map_cons, List.map_cons, ih hds.symm, seqEntry, seqEntry, hd]

theorem split_congr (h : buf.data = buf'.data) : ∃ docs docs', split buf = .ok docs ∧
    split buf' = .ok docs' ∧ docs.map seqEntry = docs'.map seqEntry := by
  obtain ⟨ds, rest, hds, hs⟩ := split_factors buf
  obtain ⟨ds', rest', hds', hs'⟩ := split_factors buf'
  rw [h] at hds
  obtain ⟨hcontents, -⟩ := hds'.unique (prefixCode_doc _ _) hds
  exact ⟨_, _, hs, hs', map_seqEntry_numbered hcontents 0⟩

variable {crates : Crates}

theorem decodeDocument_congr (h : buf.data = buf'.data) :
    decodeDocument crates buf = decodeDocument crates buf' := by
  rw [decodeDocument, decodeDocument, precheck_congr h, h]

/-- No array that steps from the value lead to has more than `n` elements. -/
def ArraysWithin (n : ℕ) (v : Bson) : Prop :=
  ∀ steps items, follow PathStep.child v steps = some (.array items) → items.length ≤ n

/-- `Document::from_reader` spends at least a byte on each element of an array. -/
def ReadsBoundedArrays (crates : Crates) : Prop :=
  ∀ b doc, crates.fromReader b = .ok doc → ArraysWithin b.length (.document doc)

theorem ArraysWithin.child {n : ℕ} {v v' : Bson} {s : PathStep} (h : ArraysWithin n v)
    (hs : s.child v = some v') : ArraysWithin n v' := by
  intro steps items hsteps
  apply h (s :: steps) items
  rw [follow_cons, hs]
  exact hsteps

/-- A segment is no numeral, or one that only has to fit the target. -/
theorem parseUsize_cases (seg : String) : (∀ U, parseUsize U seg = none) ∨
    ∃ n, ∀ U, parseUsize U seg = if n ≤ U.usizeMax then some n else none := by
  have hread (digits : List Char) (n : ℕ) :
      (∀ U : Target, (if digits = [] ∨ ¬ digits.all Char.isDigit then none else
        if n ≤ U.usizeMax then some n else none) = none) ∨
      ∃ m, ∀ U : Target, (if digits = [] ∨ ¬ digits.all Char.isDigit then none else
        if n ≤ U.usizeMax then some n else none) = if m ≤ U.usizeMax then some m else none := by
    by_cases h : digits = [] ∨ ¬ digits.all Char.isDigit
    · exact .inl fun U => if_pos h
    · exact .inr ⟨n, fun U => if_neg h⟩
  exact hread _ _

/-- An index that is too large for one target is past the end of every array. -/
theorem index_congr {items : List Bson} (hT : items.length ≤ T.usizeMax)
    (hT' : items.length ≤ T'.usizeMax) (seg : String) :
    ((parseUsize T seg).bind fun i => items[i]?) =
      (parseUsize T' seg).bind fun i => items[i]? := by
  rcases parseUsize_cases seg with hnone | ⟨n, hn⟩
  · rw [hnone, hnone]
  · have hbound (U : Target) (hU : items.length ≤ U.usizeMax) :
        ((parseUsize U seg).bind fun i => items[i]?) = items[n]? := by
      rw [hn]
      split
      · rfl
      · next hlt => exact (List.getElem?_eq_none (hU.trans (Nat.not_le.mp hlt).le)).symm
    rw [hbound T hT, hbound T' hT']

theorem segmentChild_congr {n : ℕ} {v : Bson} (hv : ArraysWithin n v) (hT : n ≤ T.usizeMax)
    (hT' : n ≤ T'.usizeMax) (seg : String) :
    segmentChild crates T v seg = segmentChild crates T' v seg := by
  cases v with
  | array items =>
    have hlen : items.length ≤ n := hv [] items rfl
    exact index_congr (hlen.trans hT) (hlen.trans hT') seg
  | _ => rfl

theorem follow_congr (hget : GetFinds crates) {n : ℕ} (hT : n ≤ T.usizeMax)
    (hT' : n ≤ T'.usizeMax) (segs : List String) {v : Bson} (hv : ArraysWithin n v) :
    follow (segmentChild crates T) v segs = follow (segmentChild crates T') v segs := by
  induction segs generalizing v with
  | nil => rfl
  | cons seg segs ih =>
    rw [follow_cons, follow_cons, segmentChild_congr hv hT hT' seg]
    cases hc : segmentChild crates T' v seg with
    | none => rfl
    | some v' =>
      obtain ⟨s, -, hs⟩ := child_of_segmentChild hget hc
      exact ih (hv.child hs)

theorem navigate_congr (hget : GetFinds crates) (harrays : ReadsBoundedArrays crates)
    (h : buf.data = buf'.data) {doc : Document} (hdoc : decodeDocument crates buf = .ok doc)
    (path : String) :
    navigate crates T (.document doc) path = navigate crates T' (.document doc) path := by
  have hwithin := harrays _ _ ((decodeDocument_eq_ok_iff crates).mp hdoc).2
  have hT : buf.data.length ≤ T.usizeMax := buf.len_lt_usizeMax.le
  have hT' : buf.data.length ≤ T'.usizeMax := h ▸ buf'.len_lt_usizeMax.le
  rw [navigate_eq_follow, navigate_eq_follow, follow_congr hget hT hT' _ hwithin]

theorem typeOf_congr (hget : GetFinds crates) (harrays : ReadsBoundedArrays crates)
    (h : buf.data = buf'.data) (path : Option String) :
    typeOf crates buf path = typeOf crates buf' path := by
  have hdecode := @decodeDocument_congr T T' buf buf' crates h
  cases hdoc : decodeDocument crates buf with
  | error e =>
    rw [typeOf, typeOf, ← hdecode, hdoc]
    rfl
  | ok doc =>
    cases path with
    | none => rw [typeOf, typeOf, ← hdecode, hdoc]
    | some path =>
      rw [typeOf_of_decode hdoc, typeOf_of_decode (hdecode ▸ hdoc),
        navigate_congr hget harrays h hdoc]

theorem field_congr (hget : GetFinds crates) (harrays : ReadsBoundedArrays crates)
    (h : buf.data = buf'.data) (path : String) (mode : Coerce) :
    field crates buf path mode = field crates buf' path mode := by
  have hdecode := @decodeDocument_congr T T' buf buf' crates h
  cases hdoc : decodeDocument crates buf with
  | error e =>
    rw [field, field, ← hdecode, hdoc]
    rfl
  | ok doc =>
    rw [field_of_decode hdoc, field_of_decode (hdecode ▸ hdoc),
      navigate_congr hget harrays h hdoc]

/-- Both builds compute the same: on input that fits both targets, the validator gives one
verdict, a stream one list of documents, and every reader one result. -/
theorem targets_agree (crates : Crates) (hget : GetFinds crates)
    (harrays : ReadsBoundedArrays crates) (T T' : Target) (b : Bytes T) (b' : Bytes T')
    (h : b.data = b'.data) :
    validate b = validate b' ∧ wellFormed b = wellFormed b' ∧
      (∃ docs docs', split b = .ok docs ∧ split b' = .ok docs' ∧
        docs.map seqEntry = docs'.map seqEntry) ∧
      (∀ mode, toJson crates b mode = toJson crates b' mode) ∧
      keys crates b = keys crates b' ∧
      (∀ path, typeOf crates b path = typeOf crates b' path) ∧
      ∀ path mode, field crates b path mode = field crates b' path mode := by
  have hdecode := @decodeDocument_congr T T' b b' crates h
  refine ⟨validate_congr h, wellFormed_congr h, split_congr h, ?_, ?_, ?_, ?_⟩
  · intro mode
    rw [toJson, toJson, hdecode]
  · rw [keys, keys, hdecode]
  · exact typeOf_congr hget harrays h
  · exact field_congr hget harrays h

theorem readsBoundedArrays_plainDocument : ReadsBoundedArrays (knownCrates plainDocument) := by
  intro b doc hread steps items hsteps
  obtain rfl : plainDocument = doc := by
    simp only [knownCrates] at hread
    split at hread
    · exact Except.ok.inj hread
    · cases hread
  cases steps with
  | nil => cases hsteps
  | cons s steps =>
    rw [follow_cons] at hsteps
    obtain ⟨v, hv, hsteps⟩ := Option.bind_eq_some_iff.mp hsteps
    obtain rfl : v = .int32 1 := by
      cases s with
      | key name =>
        obtain ⟨f, hf, rfl⟩ := Option.map_eq_some_iff.mp hv
        obtain rfl := List.mem_singleton.mp (List.mem_of_find?_eq_some hf)
        rfl
      | index i => cases hv
    cases steps with
    | nil => cases hsteps
    | cons s steps => cases hsteps

theorem targets_agree_plainBytes :
    validate (⟨documentBytes plainDocument, by decide⟩ : Bytes .bits32) = validate plainBytes ∧
      ∀ path mode, field (knownCrates plainDocument)
          (⟨documentBytes plainDocument, by decide⟩ : Bytes .bits32) path mode =
        field (knownCrates plainDocument) plainBytes path mode := by
  have h := targets_agree (knownCrates plainDocument) (getFinds_knownCrates _)
    readsBoundedArrays_plainDocument .bits32 .bits64 ⟨documentBytes plainDocument, by decide⟩
    plainBytes rfl
  exact ⟨h.1, h.2.2.2.2.2.2⟩

end VgiBson.TargetIndependence
