import VgiBson.DottedPaths
import VgiBson.LengthEquations

/-! # The registry of types

The browsable table of element types beside the code: its bytes are those of the elements that the
validator accepts, and a name that `type_of` reports is looked up there for all types but three. -/

namespace VgiBson.TypeRegistry

open MachineBytes CursorWalks StructuralValidator ValidatorGrammar BsonGrammar BsonValues
  BsonEncoding DocumentDecoding FieldProjection LengthEquations DottedPaths

variable {T : Target} {crates : Crates}

/-- The names and type bytes of the view `bson_types`. -/
def bsonTypes : List (String × UInt8) := [
  ("double", 0x01), ("string", 0x02), ("object", 0x03), ("array", 0x04), ("binData", 0x05),
  ("undefined", 0x06), ("objectId", 0x07), ("bool", 0x08), ("date", 0x09), ("null", 0x0A),
  ("regex", 0x0B), ("dbPointer", 0x0C), ("code", 0x0D), ("symbol", 0x0E),
  ("codeWithScope", 0x0F), ("int", 0x10), ("timestamp", 0x11), ("long", 0x12),
  ("decimal128", 0x13), ("minKey", 0xFF), ("maxKey", 0x7F)]

theorem registered_of_layout {ty : UInt8} {ps : List Piece} (h : layout ty = some ps) :
    ty ∈ bsonTypes.map Prod.snd := by
  unfold layout at h
  split at h <;> cases h
  all_goals decide

/-- A small value of each type. -/
def valueOfType : ElementType → Bson
  | .double => .double 0
  | .string => .string ""
  | .embeddedDocument => .document []
  | .array => .array []
  | .binary => .binary .generic []
  | .undefined => .undefined
  | .objectId => .objectId (Vector.replicate 12 0)
  | .boolean => .boolean false
  | .dateTime => .dateTime 0
  | .null => .null
  | .regularExpression => .regularExpression "" ""
  | .dbPointer => .dbPointer "" (Vector.replicate 12 0)
  | .javaScriptCode => .javaScriptCode ""
  | .symbol => .symbol ""
  | .javaScriptCodeWithScope => .javaScriptCodeWithScope "" []
  | .int32 => .int32 0
  | .timestamp => .timestamp 0 0
  | .int64 => .int64 0
  | .decimal128 => .decimal128 (Vector.replicate 16 0)
  | .maxKey => .maxKey
  | .minKey => .minKey

theorem elementType_valueOfType (ty : ElementType) : (valueOfType ty).elementType = ty := by
  cases ty <;> rfl

/-- The types in the order of the view. -/
def registered : List ElementType := [
  .double, .string, .embeddedDocument, .array, .binary, .undefined, .objectId, .boolean, .dateTime,
  .null, .regularExpression, .dbPointer, .javaScriptCode, .symbol, .javaScriptCodeWithScope, .int32,
  .timestamp, .int64, .decimal128, .minKey, .maxKey]

theorem bytes_registered : bsonTypes.map Prod.snd = registered.map ElementType.toByte := rfl

/-- The document of one value without a name. -/
def single (ty : ElementType) : Document := [("", valueOfType ty)]

theorem storable_single (ty : ElementType) : Storable (.document (single ty)) := by
  have hnul : NulFree "" := by decide
  cases ty <;> simp [single, valueOfType, Throughout, ThroughoutFields, ThroughoutItems,
    StorableKeys, StorableLeaf, hnul]

theorem levels_single (ty : ElementType) : levels (.document (single ty)) ≤ 2 := by
  cases ty <;> decide

theorem length_single (ty : ElementType) :
    5 < (documentBytes (single ty)).length ∧ (documentBytes (single ty)).length ≤ 40 := by
  cases ty <;> decide

/-- Every type stands in some document that is valid. -/
theorem exists_valid (T : Target) (ty : ElementType) : ∃ b : Bytes T, validate b = .ok () ∧
    5 < b.len ∧ b.data[4]? = some ty.toByte := by
  obtain ⟨hpos, hlen⟩ := length_single ty
  have hfits : (documentBytes (single ty)).length ≤ T.isizeMax := hlen.trans (by cases T <;> decide)
  have hfirst : (documentBytes (single ty))[4]? = some (valueOfType ty).elementType.toByte := rfl
  rw [elementType_valueOfType] at hfirst
  refine ⟨⟨documentBytes (single ty), hfits⟩, ?_, hpos, hfirst⟩
  rw [validate_documentBytes_iff rfl (storable_single ty) (by simp only; omega)]
  exact (levels_single ty).trans (by decide)

/-- The first element of a valid document has a registered type. -/
theorem registered_of_valid {b : Bytes T} (h : validate b = .ok ()) (hlen : 5 < b.len) {ty : UInt8}
    (hty : b.data[4]? = some ty) : ty ∈ bsonTypes.map Prod.snd := by
  have hdoc := (yields_validateDoc_full b 0 true).mp ((validate_ok_iff_yields b).mp h)
  rw [Bytes.len] at hlen
  generalize b.data = data at hlen hty hdoc
  cases hdoc with
  | @document k keys body level elements distinct small =>
    cases elements with
    | noElements => simp at hlen
    | element known =>
      rw [List.append_assoc, List.getElem?_append_right (by simp)] at hty
      obtain rfl : _ = ty := by simpa using hty
      exact registered_of_layout known

/-- The type byte beside a name. -/
def typeByte (name : String) : Option UInt8 := (bsonTypes.find? (·.1 = name)).map Prod.snd

/-- The types whose names the view does not have: the name of binary data holds its subtype, and
JavaScript code goes by another name. -/
def unnamed : List ElementType := [.binary, .javaScriptCode, .javaScriptCodeWithScope]

theorem typeByte_binary (subtype : BinarySubtype) :
    typeByte ("binData:" ++ subtypeName subtype) = none := by
  cases subtype <;> rfl

/-- A name of `type_of` is looked up as the byte that the value has in a document. -/
theorem typeByte_typeName (v : Bson) : typeByte (typeName v) =
    if v.elementType ∈ unnamed then none else some v.elementType.toByte := by
  cases v with
  | binary subtype data => exact typeByte_binary subtype
  | _ => rfl

/-- The registry of types fits the code: its bytes are exactly those that begin an element of a
valid document, its names are distinct, and for a value under a path the name that `type_of` reports
is looked up as the byte of the value's type, but for binary data and JavaScript code. -/
theorem registry_fits (crates : Crates) (T : Target) :
    (∀ ty : UInt8, (∃ name, (name, ty) ∈ bsonTypes) ↔
      ∃ b : Bytes T, validate b = .ok () ∧ 5 < b.len ∧ b.data[4]? = some ty) ∧
    (bsonTypes.map Prod.fst).Nodup ∧
    ∀ (b : Bytes T) (path name : String), typeOf crates b (some path) = .ok (some name) →
      ∃ doc v, decodeDocument crates b = .ok doc ∧
        navigate crates T (.document doc) path = some v ∧
        typeByte name = if v.elementType ∈ unnamed then none else some v.elementType.toByte := by
  refine ⟨?_, by decide, ?_⟩
  · intro ty
    constructor
    · intro h
      obtain ⟨name, hrow⟩ := h
      have hty : ty ∈ bsonTypes.map Prod.snd := List.mem_map_of_mem hrow
      rw [bytes_registered] at hty
      obtain ⟨t, -, rfl⟩ := List.mem_map.mp hty
      exact exists_valid T t
    · intro h
      obtain ⟨b, hvalid, hlen, hty⟩ := h
      obtain ⟨row, hrow, rfl⟩ := List.mem_map.mp (registered_of_valid hvalid hlen hty)
      exact ⟨row.1, hrow⟩
  · intro b path name h
    cases hdoc : decodeDocument crates b with
    | error e =>
      rw [typeOf, hdoc] at h
      cases h
    | ok doc =>
      rw [typeOf_of_decode hdoc] at h
      obtain ⟨v, hv, rfl⟩ := Option.map_eq_some_iff.mp (Except.ok.inj h)
      exact ⟨doc, v, rfl, hv, typeByte_typeName v⟩

end VgiBson.TypeRegistry
