import Mathlib.Data.List.Infix
import VgiBson.BsonValues
import VgiBson.StructuralValidator

/-! # Decoding and Extended JSON

The full decode of a document and the bridge to Extended JSON text. The value library and the JSON
library are parameters: what is assumed of them is stated where it is used. -/

namespace VgiBson.DocumentDecoding

open MachineBytes CursorWalks StructuralValidator BsonValues

variable {T : Target}

/-- A JSON value; object members are kept in order. -/
inductive Json where
  | null
  | bool (b : Bool)
  | number (literal : String)
  | string (s : String)
  | array (items : List Json)
  | object (members : List (String × Json))
  deriving Repr

/-- The functions of other crates that the program calls. Errors are given by their texts. -/
structure Crates where
  fromReader : List UInt8 → Except String Document
  toWriter : Document → Except String (List UInt8)
  get : Document → String → Option Bson
  insert : Document → String → Bson → Document
  keys : Document → List String
  display : Bson → String
  intoCanonicalExtjson : Bson → Json
  intoRelaxedExtjson : Bson → Json
  tryFrom : Json → Except String Bson
  jsonToString : Json → String
  jsonFromStr : String → Except String Json
  toHex : Vector UInt8 12 → String
  decimalToString : Vector UInt8 16 → String
  decimalFromStr : String → Except String (Vector UInt8 16)
  hexEncode : List UInt8 → String
  doubleToString : UInt64 → String

variable (crates : Crates)

/-- `s.contains(sub)`. -/
def contains (s sub : String) : Bool := decide (sub.toList <:+: s.toList)

/-- `s.to_ascii_lowercase()`. -/
def toAsciiLowercase (s : String) : String := String.ofList (s.toList.map Char.toLower)

/-- Map a decode error of the crate, given by its text, onto the taxonomy. -/
def classify (err : String) : DecodeError :=
  let msg := toAsciiLowercase err
  if contains msg "utf-8" ∨ contains msg "utf8" then .badUtf8
  else if contains msg "decimal" then .badDecimal128
  else if contains msg "eof" ∨ contains msg "unexpected end" then .truncated
  else .invalidType

/-- Decode the first document in `bytes`. -/
def decodeDocument (bytes : Bytes T) : Outcome DecodeError Document := do
  precheck bytes
  fallible ((crates.fromReader bytes.data).mapError classify)

/-- The Extended JSON rendering mode. -/
inductive JsonMode where
  | canonical
  | relaxed
  deriving DecidableEq, Repr

/-- Render a decoded document as an Extended JSON string in `mode`. -/
def documentToExtjson (doc : Document) (mode : JsonMode) : String :=
  let bson := Bson.document doc
  let value := match mode with
    | .canonical => crates.intoCanonicalExtjson bson
    | .relaxed => crates.intoRelaxedExtjson bson
  crates.jsonToString value

/-- `bson.to_json(blob, mode)`. -/
def toJson (bytes : Bytes T) (mode : JsonMode) : Outcome DecodeError String := do
  let doc ← decodeDocument crates bytes
  pure (documentToExtjson crates doc mode)

/-- Human label for an element type, used in error text. -/
def tagName : ElementType → String
  | .double => "double"
  | .string => "string"
  | .embeddedDocument => "object"
  | .array => "array"
  | .binary => "binData"
  | .undefined => "undefined"
  | .objectId => "objectId"
  | .boolean => "bool"
  | .dateTime => "date"
  | .null => "null"
  | .regularExpression => "regex"
  | .dbPointer => "dbPointer"
  | .javaScriptCode => "javascript"
  | .symbol => "symbol"
  | .javaScriptCodeWithScope => "javascriptWithScope"
  | .int32 => "int"
  | .timestamp => "timestamp"
  | .int64 => "long"
  | .decimal128 => "decimal"
  | .maxKey => "maxKey"
  | .minKey => "minKey"

/-- `bson.from_json(extjson)`. -/
def fromJson (text : String) : Except String (List UInt8) := do
  let json ← (crates.jsonFromStr text).mapError fun e => s!"invalid JSON: {e}"
  let bson ← (crates.tryFrom json).mapError fun e => s!"invalid Extended JSON: {e}"
  let doc ← match bson with
    | .document d => pure d
    | other =>
      .error ("Extended JSON must encode a document, got " ++ tagName other.elementType)
  (crates.toWriter doc).mapError fun e => s!"encode: {e}"

/-- A decode is the framing precheck and then the crate's own reader. -/
theorem decodeDocument_of_ok {b : Bytes T} (h : precheck b = .ok ()) :
    decodeDocument crates b = fallible ((crates.fromReader b.data).mapError classify) := by
  rw [decodeDocument, h]
  rfl

theorem decodeDocument_eq_ok_iff {b : Bytes T} {doc : Document} :
    decodeDocument crates b = .ok doc ↔
      precheck b = .ok () ∧ crates.fromReader b.data = .ok doc := by
  cases h : precheck b with
  | error e =>
    have he : decodeDocument crates b = .error e := by
      rw [decodeDocument, h]
      rfl
    simp [he]
  | ok u =>
    rw [decodeDocument_of_ok crates h]
    cases hr : crates.fromReader b.data <;> simp [fallible, Except.mapError]

end VgiBson.DocumentDecoding
