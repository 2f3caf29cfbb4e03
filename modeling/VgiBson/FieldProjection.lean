import VgiBson.CivilDates
import VgiBson.DocumentDecoding

/-! # Projection by dotted path

One field of a document by its path, the name of the type found there, and the field names. -/

namespace VgiBson.FieldProjection

open MachineBytes CursorWalks StructuralValidator BsonValues DocumentDecoding CivilDates

variable {T : Target} {ε : Type} (crates : Crates)

/-- The typed coercion requested via the `as` argument. -/
inductive Coerce where
  | infer
  | objectId
  | decimal
  | uuid
  | timestamp
  | dateTime
  | blob
  | json
  deriving DecidableEq, Repr

/-- `path.split('.')`. -/
def segments (path : String) : List String := (path.toList.splitOn '.').map String.ofList

/-- `seg.parse::<usize>()`: an optional plus sign, then decimal digits without overflow. -/
def parseUsize (T : Target) (seg : String) : Option ℕ :=
  let digits := match seg.toList with
    | '+' :: ds => ds
    | ds => ds
  if digits = [] ∨ ¬ digits.all Char.isDigit then none else
  let n := digits.foldl (fun n d => 10 * n + (d.toNat - '0'.toNat)) 0
  if n ≤ T.usizeMax then some n else none

/-- Walk the dotted `path` from `root`, as `field` does. -/
def navigate (T : Target) (root : Bson) (path : String) : Option Bson :=
  (segments path).foldlM (fun cur seg =>
    match cur with
    | .document d => crates.get d seg
    | .array a => do
      let idx ← parseUsize T seg
      a[idx]?
    | _ => none) root

/-- Format 16 raw bytes as a canonical 8-4-4-4-12 UUID string. -/
def uuidString (bytes : List UInt8) : Outcome ε String := do
  if bytes.length ≠ 16 then pure (crates.hexEncode bytes) else
  let h := crates.hexEncode bytes
  let s₀ ← strRange h 0 8
  let s₁ ← strRange h 8 12
  let s₂ ← strRange h 12 16
  let s₃ ← strRange h 16 20
  let s₄ ← strRange h 20 32
  pure (s₀ ++ "-" ++ s₁ ++ "-" ++ s₂ ++ "-" ++ s₃ ++ "-" ++ s₄)

/-- Canonical Extended JSON of a value. -/
def canonicalText (v : Bson) : String := crates.jsonToString (crates.intoCanonicalExtjson v)

/-- Leaf inference for the default mode. -/
def infer : Bson → Outcome ε String
  | .string s => pure s
  | .boolean b => pure (if b then "true" else "false")
  | .int32 i => pure (toString i.toInt)
  | .int64 i => pure (toString i.toInt)
  | .double f => pure (crates.doubleToString f)
  | .decimal128 d => pure (crates.decimalToString d)
  | .objectId oid => pure (crates.toHex oid)
  | .dateTime dt => epochMillisToRfc3339 dt.toInt
  | .null => pure "null"
  | other => pure (canonicalText crates other)

/-- Render the leaf per the requested coercion. -/
def coerce (leaf : Bson) (mode : Coerce) : Outcome ε String :=
  match mode with
  | .json => pure (canonicalText crates leaf)
  | .objectId =>
    match leaf with
    | .objectId oid => pure (crates.toHex oid)
    | other => infer crates other
  | .decimal =>
    match leaf with
    | .decimal128 d => pure (crates.decimalToString d)
    | .double f => pure (crates.doubleToString f)
    | .int32 i => pure (toString i.toInt)
    | .int64 i => pure (toString i.toInt)
    | other => infer crates other
  | .uuid =>
    match leaf with
    | .binary .uuid bytes => uuidString crates bytes
    | other => infer crates other
  | .timestamp =>
    match leaf with
    | .timestamp time _ => epochSecsToRfc3339 time.toNat
    | other => infer crates other
  | .dateTime =>
    match leaf with
    | .dateTime dt => epochMillisToRfc3339 dt.toInt
    | other => infer crates other
  | .blob =>
    match leaf with
    | .binary _ bytes => pure (crates.hexEncode bytes)
    | other => infer crates other
  | .infer => infer crates leaf

/-- `bson.field(doc, path[, as])`. -/
def field (bytes : Bytes T) (path : String) (mode : Coerce) :
    Outcome DecodeError (Option String) := do
  let doc ← decodeDocument crates bytes
  let root := Bson.document doc
  match navigate crates T root path with
  | some leaf => some <$> coerce crates leaf mode
  | none => pure none

/-- A short label for a binary subtype. -/
def subtypeName : BinarySubtype → String
  | .generic => "generic"
  | .function => "function"
  | .binaryOld => "binaryOld"
  | .uuidOld => "uuidOld"
  | .uuid => "uuid"
  | .md5 => "md5"
  | .encrypted => "encrypted"
  | .column => "column"
  | .sensitive => "sensitive"
  | .vector => "vector"
  | .userDefined _ => "userDefined"
  | _ => "reserved"

/-- The type name of a value. -/
def typeName : Bson → String
  | .double _ => "double"
  | .string _ => "string"
  | .document _ => "object"
  | .array _ => "array"
  | .boolean _ => "bool"
  | .null => "null"
  | .regularExpression _ _ => "regex"
  | .javaScriptCode _ => "javascript"
  | .javaScriptCodeWithScope _ _ => "javascriptWithScope"
  | .int32 _ => "int"
  | .int64 _ => "long"
  | .timestamp _ _ => "timestamp"
  | .objectId _ => "objectId"
  | .dateTime _ => "date"
  | .symbol _ => "symbol"
  | .decimal128 _ => "decimal128"
  | .undefined => "undefined"
  | .maxKey => "maxKey"
  | .minKey => "minKey"
  | .dbPointer _ _ => "dbPointer"
  | .binary subtype _ => "binData:" ++ subtypeName subtype

/-- Walk the dotted path from `root`, as `type_of` does with its own copy. -/
def navigateType (T : Target) (root : Bson) (path : String) : Option Bson :=
  (segments path).foldlM (fun cur seg =>
    match cur with
    | .document d => crates.get d seg
    | .array a => do a[← parseUsize T seg]?
    | _ => none) root

/-- `bson.type_of(doc, path)`. -/
def typeOf (bytes : Bytes T) (path : Option String) : Outcome DecodeError (Option String) := do
  let doc ← decodeDocument crates bytes
  let root := Bson.document doc
  let target := match path with
    | none => some root
    | some p => navigateType crates T root p
  pure (target.map typeName)

/-- `bson.keys(doc)`. -/
def keys (bytes : Bytes T) : Outcome DecodeError (List String) := do
  let doc ← decodeDocument crates bytes
  pure (crates.keys doc)

/-- Two blobs that decode alike look alike to every reader. -/
theorem readers_congr {b b' : Bytes T} (h : decodeDocument crates b = decodeDocument crates b') :
    (∀ mode, toJson crates b mode = toJson crates b' mode) ∧
      keys crates b = keys crates b' ∧
      (∀ path mode, field crates b path mode = field crates b' path mode) ∧
      ∀ path, typeOf crates b path = typeOf crates b' path := by
  refine ⟨fun mode => ?_, ?_, fun path mode => ?_, fun path => ?_⟩
  · rw [toJson, toJson, h]
  · rw [keys, keys, h]
  · rw [field, field, h]
  · rw [typeOf, typeOf, h]

/-- The error of the decoder is that of every reader. -/
theorem readers_of_error {b : Bytes T} {e : Stop DecodeError}
    (h : decodeDocument crates b = .error e) :
    (∀ mode, toJson crates b mode = .error e) ∧ keys crates b = .error e ∧
      (∀ path mode, field crates b path mode = .error e) ∧
      ∀ path, typeOf crates b path = .error e := by
  refine ⟨fun mode => ?_, ?_, fun path mode => ?_, fun path => ?_⟩
  · rw [toJson, h]
    rfl
  · rw [keys, h]
    rfl
  · rw [field, h]
    rfl
  · rw [typeOf, h]
    rfl

end VgiBson.FieldProjection
