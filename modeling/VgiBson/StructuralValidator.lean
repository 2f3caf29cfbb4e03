import VgiBson.CursorWalks

/-! # The structural validator

A bounds-checked walk of the BSON grammar over a byte slice, with a recursion limit and classified
failures. The mutual recursion of documents and values is tied through the callback of
`validateValue`, and `validateDoc_eq` recovers the source's own recursive equation. -/

namespace VgiBson.StructuralValidator

open MachineBytes CursorWalks

/-- Maximum document/array nesting depth accepted by the validator and decoders. -/
def maxNesting : ℕ := 256

/-- A classified BSON structural failure. -/
inductive DecodeError where
  | truncated
  | lengthMismatch
  | trailingBytes
  | invalidType
  | badCstring
  | badUtf8
  | duplicateKey
  | nestingLimit
  | badDecimal128
  | badSubtype
  deriving DecidableEq, Repr

/-- The `well_formed.kind` label. -/
def DecodeError.kind : DecodeError → String
  | .truncated => "truncated"
  | .lengthMismatch => "length-mismatch"
  | .trailingBytes => "trailing-bytes"
  | .invalidType => "invalid-type"
  | .badCstring => "bad-cstring"
  | .badUtf8 => "bad-utf8"
  | .duplicateKey => "duplicate-key"
  | .nestingLimit => "nesting-limit"
  | .badDecimal128 => "bad-decimal128"
  | .badSubtype => "bad-subtype"

/-- The human-readable text of a failure. -/
def DecodeError.message : DecodeError → String
  | .truncated => "input ended before the document was complete"
  | .lengthMismatch => "declared document length does not match the input"
  | .trailingBytes => "trailing bytes after the top-level document"
  | .invalidType => "unknown BSON element type byte"
  | .badCstring => "cstring not terminated by NUL"
  | .badUtf8 => "string is not valid UTF-8"
  | .duplicateKey => "document contains a duplicate key"
  | .nestingLimit => "nesting exceeds the depth limit"
  | .badDecimal128 => "malformed Decimal128 value"
  | .badSubtype => "malformed Binary value / subtype"

/-- No two failures share a label. -/
theorem DecodeError.kind_injective : Function.Injective kind := by
  intro e e' h
  cases e <;> cases e' <;> first | rfl | simp [kind] at h

variable {T : Target}

/-- Read a little-endian i32 at the position, advancing it. -/
def readI32 (buf : Bytes T) : Walk DecodeError ℤ := do
  let pos ← position
  let stop ← okOr (T.checkedAdd pos 4) .truncated
  let slice ← okOr (buf.getRange pos stop) .truncated
  moveTo stop
  let b₀ ← index slice 0
  let b₁ ← index slice 1
  let b₂ ← index slice 2
  let b₃ ← index slice 3
  pure (i32FromLeBytes b₀ b₁ b₂ b₃)

/-- Skip `n` raw bytes, bounds-checked. -/
def skip (buf : Bytes T) (n : ℕ) : Walk DecodeError Unit := do
  let pos ← position
  let stop ← okOr (T.checkedAdd pos n) .truncated
  if stop > buf.len then fail .truncated else
  moveTo stop

/-- Consume a cstring and return it. -/
def readCstringStr (buf : Bytes T) : Walk DecodeError String := do
  let pos ← position
  let rest ← okOr (buf.getFrom pos) .truncated
  let nul ← okOr (rest.data.findIdx? (· = 0)) .badCstring
  let bytes ← range rest 0 nul
  let s ← okOr (fromUtf8 bytes.data) .badUtf8
  let n ← addUsize T nul 1
  advance T n
  pure s

/-- Consume a cstring (NUL-terminated, UTF-8). -/
def readCstring (buf : Bytes T) : Walk DecodeError Unit := do
  let pos ← position
  let rest ← okOr (buf.getFrom pos) .truncated
  let nul ← okOr (rest.data.findIdx? (· = 0)) .badCstring
  let bytes ← range rest 0 nul
  let _ ← okOr (fromUtf8 bytes.data) .badUtf8
  let n ← addUsize T nul 1
  advance T n

/-- Consume a BSON string: int32 byte-length (incl. trailing NUL) + bytes. -/
def readString (buf : Bytes T) : Walk DecodeError Unit := do
  let len ← readI32 buf
  if len < 1 then fail .lengthMismatch else
  let n := T.usizeOfI32 len
  let start ← position
  skip buf n
  let stop ← addUsize T start n
  let bytes ← range buf start stop
  let last ← subUsize n 1
  let nul ← index bytes last
  if nul ≠ 0 then fail .badCstring else
  let last ← subUsize n 1
  let text ← range bytes 0 last
  let _ ← okOr (fromUtf8 text.data) .badUtf8
  pure ()

/-- Binary: int32 len + subtype byte + len bytes. -/
def readBinary (buf : Bytes T) : Walk DecodeError Unit := do
  let len ← readI32 buf
  if len < 0 then fail .badSubtype else
  skip buf 1
  skip buf (T.usizeOfI32 len)

/-- Boolean: one byte, must be 0 or 1. -/
def readBoolean (buf : Bytes T) : Walk DecodeError Unit := do
  let start ← position
  skip buf 1
  let b ← index buf start
  if b = 0 ∨ b = 1 then pure () else fail .invalidType

/-- Validate a single element value; `doc d` stands for the call of `validate_doc` at depth `d`. -/
def validateValue (buf : Bytes T) (doc : ℕ → Walk DecodeError Unit) (typeByte : UInt8)
    (depth : ℕ) : Walk DecodeError Unit :=
  match typeByte with
  | 0x01 => skip buf 8
  | 0x02 => readString buf
  | 0x03 => do
    let d ← addUsize T depth 1
    doc d
  | 0x04 => do
    let d ← addUsize T depth 1
    doc d
  | 0x05 => readBinary buf
  | 0x06 => pure ()
  | 0x07 => skip buf 12
  | 0x08 => readBoolean buf
  | 0x09 => skip buf 8
  | 0x0A => pure ()
  | 0x0B => do
    readCstring buf
    readCstring buf
  | 0x0C => do
    readString buf
    skip buf 12
  | 0x0D => readString buf
  | 0x0E => readString buf
  | 0x0F => do
    let total ← readI32 buf
    if total < 0 then fail .lengthMismatch else
    readString buf
    let d ← addUsize T depth 1
    doc d
  | 0x10 => skip buf 4
  | 0x11 => skip buf 8
  | 0x12 => skip buf 8
  | 0x13 => skip buf 16
  | 0xFF => pure ()
  | 0x7F => pure ()
  | _ => fail .invalidType

/-- The duplicate check of one key: the keys seen after it. -/
def noteKey (checkDupes : Bool) (seen : List String) (key : String) :
    Walk DecodeError (List String) :=
  if checkDupes then
    if seen.contains key then fail .duplicateKey else pure (seen ++ [key])
  else pure seen

/-- The element loop of a document that ends at `docEnd`. -/
def elementLoop (buf : Bytes T) (checkDupes : Bool) (value : UInt8 → Walk DecodeError Unit)
    (docEnd : ℕ) : (fuel : ℕ) → (seen : List String) → Walk DecodeError Unit
  | 0, _ => stop .fuel
  | fuel + 1, seen => do
    round
    let pos ← position
    if pos ≥ docEnd then fail .lengthMismatch else
    let typeByte ← index buf pos
    advance T 1
    if typeByte = 0x00 then pure () else
    let key ← readCstringStr buf
    let seen ← noteKey checkDupes seen key
    value typeByte
    let pos ← position
    if pos > docEnd then fail .lengthMismatch else
    elementLoop buf checkDupes value docEnd fuel seen

/-- One call of `validate_doc`, given the calls it makes for nested documents. A loop round
consumes a byte, so the bytes left in the declared document bound the rounds. -/
def documentBody (buf : Bytes T) (checkDupes : Bool) (doc : ℕ → Walk DecodeError Unit)
    (depth : ℕ) : Walk DecodeError Unit := call do
  if depth > maxNesting then fail .nestingLimit else
  let docStart ← position
  let declared ← readI32 buf
  if declared < 5 then fail .lengthMismatch else
  let docEnd ← okOr (T.checkedAdd docStart (T.usizeOfI32 declared)) .truncated
  if docEnd > buf.len then fail .truncated else
  elementLoop buf checkDupes (fun ty => validateValue buf doc ty depth) docEnd
    (docEnd - docStart) []
  let pos ← position
  if pos ≠ docEnd then fail .lengthMismatch else
  pure ()

/-- `validate_doc` with `levels` nested calls still to unfold. -/
def validateDocAt (buf : Bytes T) (checkDupes : Bool) : (levels : ℕ) → (depth : ℕ) →
    Walk DecodeError Unit
  | 0, _ => stop .fuel
  | levels + 1, depth => documentBody buf checkDupes (validateDocAt buf checkDupes levels) depth

/-- Validate one document body whose int32 prefix begins at the position. -/
def validateDoc (buf : Bytes T) (depth : ℕ) (checkDupes : Bool) : Walk DecodeError Unit :=
  validateDocAt buf checkDupes (maxNesting + 1 - depth + 1) depth

/-- Exactly one well-formed document, no trailing bytes and no duplicate keys. -/
def validate (bytes : Bytes T) : Outcome DecodeError Unit :=
  let walk : Walk DecodeError Unit := do
    validateDoc bytes 0 true
    let pos ← position
    if pos ≠ bytes.len then fail .trailingBytes else
    pure ()
  (walk.run 0).out

/-- Framing precheck of the first document: duplicates and trailing bytes are tolerated. -/
def precheck (bytes : Bytes T) : Outcome DecodeError Unit := ((validateDoc bytes 0 false).run 0).out

/-- Validate the single document at the position, advancing past it. -/
def validateOne (bytes : Bytes T) : Walk DecodeError Unit := validateDoc bytes 0 false

def isValid (bytes : Bytes T) : Bool :=
  match validate bytes with
  | .ok _ => true
  | .error _ => false

/-- The structured result of `bson.well_formed`. -/
structure WellFormed where
  ok : Bool
  error : Option String
  kind : Option String
  deriving DecidableEq, Repr

def wellFormed (bytes : Bytes T) : Outcome DecodeError WellFormed :=
  match validate bytes with
  | .ok _ => .ok ⟨true, none, none⟩
  | .error (.error e) => .ok ⟨false, some e.message, some e.kind⟩
  | .error e => .error e

end VgiBson.StructuralValidator
