import VgiBson.MachineBytes

/-! # The dynamic value model

The values that documents hold, as the decoder builds them: a document keeps its elements in order.
Text is valid UTF-8 by construction and fixed-width data has its width in the type. -/

namespace VgiBson.BsonValues

open MachineBytes

inductive BinarySubtype where
  | generic
  | function
  | binaryOld
  | uuidOld
  | uuid
  | md5
  | encrypted
  | column
  | sensitive
  | vector
  | userDefined (b : UInt8)
  | reserved (b : UInt8)
  deriving DecidableEq, Repr

def BinarySubtype.toByte : BinarySubtype → UInt8
  | .generic => 0x00
  | .function => 0x01
  | .binaryOld => 0x02
  | .uuidOld => 0x03
  | .uuid => 0x04
  | .md5 => 0x05
  | .encrypted => 0x06
  | .column => 0x07
  | .sensitive => 0x08
  | .vector => 0x09
  | .userDefined b => b
  | .reserved b => b

/-- A value; doubles and decimals are kept as their bits. -/
inductive Bson where
  | double (bits : UInt64)
  | string (s : String)
  | array (items : List Bson)
  | document (fields : List (String × Bson))
  | boolean (b : Bool)
  | null
  | regularExpression (pattern options : String)
  | javaScriptCode (code : String)
  | javaScriptCodeWithScope (code : String) (scope : List (String × Bson))
  | int32 (i : Int32)
  | int64 (i : Int64)
  | timestamp (time increment : UInt32)
  | binary (subtype : BinarySubtype) (bytes : List UInt8)
  | objectId (bytes : Vector UInt8 12)
  | dateTime (millis : Int64)
  | symbol (s : String)
  | decimal128 (bytes : Vector UInt8 16)
  | undefined
  | maxKey
  | minKey
  | dbPointer (ns : String) (id : Vector UInt8 12)
  deriving Repr

/-- The elements of a document, in order. -/
abbrev Document := List (String × Bson)

/-- The element types of the format. -/
inductive ElementType where
  | double
  | string
  | embeddedDocument
  | array
  | binary
  | undefined
  | objectId
  | boolean
  | dateTime
  | null
  | regularExpression
  | dbPointer
  | javaScriptCode
  | symbol
  | javaScriptCodeWithScope
  | int32
  | timestamp
  | int64
  | decimal128
  | maxKey
  | minKey
  deriving DecidableEq, Repr

def Bson.elementType : Bson → ElementType
  | .double _ => .double
  | .string _ => .string
  | .array _ => .array
  | .document _ => .embeddedDocument
  | .boolean _ => .boolean
  | .null => .null
  | .regularExpression _ _ => .regularExpression
  | .javaScriptCode _ => .javaScriptCode
  | .javaScriptCodeWithScope _ _ => .javaScriptCodeWithScope
  | .int32 _ => .int32
  | .int64 _ => .int64
  | .timestamp _ _ => .timestamp
  | .binary _ _ => .binary
  | .objectId _ => .objectId
  | .dateTime _ => .dateTime
  | .symbol _ => .symbol
  | .decimal128 _ => .decimal128
  | .undefined => .undefined
  | .maxKey => .maxKey
  | .minKey => .minKey
  | .dbPointer _ _ => .dbPointer

/-- The type byte of an element. -/
def ElementType.toByte : ElementType → UInt8
  | .double => 0x01
  | .string => 0x02
  | .embeddedDocument => 0x03
  | .array => 0x04
  | .binary => 0x05
  | .undefined => 0x06
  | .objectId => 0x07
  | .boolean => 0x08
  | .dateTime => 0x09
  | .null => 0x0A
  | .regularExpression => 0x0B
  | .dbPointer => 0x0C
  | .javaScriptCode => 0x0D
  | .symbol => 0x0E
  | .javaScriptCodeWithScope => 0x0F
  | .int32 => 0x10
  | .timestamp => 0x11
  | .int64 => 0x12
  | .decimal128 => 0x13
  | .maxKey => 0x7F
  | .minKey => 0xFF

mutual

/-- How many documents and arrays stand inside each other, the value itself included. -/
def levels : Bson → ℕ
  | .array items => levelsItems items + 1
  | .document fields => levelsFields fields + 1
  | .javaScriptCodeWithScope _ scope => levelsFields scope + 1
  | _ => 0

def levelsItems : List Bson → ℕ
  | [] => 0
  | v :: vs => max (levels v) (levelsItems vs)

def levelsFields : List (String × Bson) → ℕ
  | [] => 0
  | (_, v) :: fs => max (levels v) (levelsFields fs)

end

mutual

/-- `keys` holds of the key list of every document in the value, `leaf` of every other value. -/
def Throughout (keys : List String → Prop) (leaf : Bson → Prop) : Bson → Prop
  | .array items => ThroughoutItems keys leaf items
  | .document fields => keys (fields.map Prod.fst) ∧ ThroughoutFields keys leaf fields
  | .javaScriptCodeWithScope _ scope =>
    keys (scope.map Prod.fst) ∧ ThroughoutFields keys leaf scope
  | v => leaf v

def ThroughoutItems (keys : List String → Prop) (leaf : Bson → Prop) : List Bson → Prop
  | [] => True
  | v :: vs => Throughout keys leaf v ∧ ThroughoutItems keys leaf vs

def ThroughoutFields (keys : List String → Prop) (leaf : Bson → Prop) :
    List (String × Bson) → Prop
  | [] => True
  | (_, v) :: fs => Throughout keys leaf v ∧ ThroughoutFields keys leaf fs

end

theorem levelsItems_le_iff {n : ℕ} {vs : List Bson} :
    levelsItems vs ≤ n ↔ ∀ v ∈ vs, levels v ≤ n := by
  induction vs with
  | nil => simp [levelsItems]
  | cons v vs ih => simp [levelsItems, ih]

theorem levelsFields_le_iff {n : ℕ} {fs : Document} :
    levelsFields fs ≤ n ↔ ∀ f ∈ fs, levels f.2 ≤ n := by
  induction fs with
  | nil => simp [levelsFields]
  | cons f fs ih =>
    obtain ⟨key, v⟩ := f
    simp [levelsFields, ih]

section Throughout

variable {keys keys' keys'' : List String → Prop} {leaf leaf' leaf'' : Bson → Prop}

theorem throughoutItems_iff {vs : List Bson} :
    ThroughoutItems keys leaf vs ↔ ∀ v ∈ vs, Throughout keys leaf v := by
  induction vs with
  | nil => simp [ThroughoutItems]
  | cons v vs ih => simp [ThroughoutItems, ih]

theorem throughoutFields_iff {fs : Document} :
    ThroughoutFields keys leaf fs ↔ ∀ f ∈ fs, Throughout keys leaf f.2 := by
  induction fs with
  | nil => simp [ThroughoutFields]
  | cons f fs ih =>
    obtain ⟨key, v⟩ := f
    simp [ThroughoutFields, ih]

mutual

/-- Two properties of a tree meet in what they imply together. -/
theorem Throughout.combine (hk : ∀ ks, keys ks → keys' ks → keys'' ks)
    (hl : ∀ v, leaf v → leaf' v → leaf'' v) (v : Bson) (h : Throughout keys leaf v)
    (h' : Throughout keys' leaf' v) : Throughout keys'' leaf'' v := by
  cases v with
  | array items =>
    simp only [Throughout] at h h' ⊢
    exact combineItems hk hl items h h'
  | document fields =>
    simp only [Throughout] at h h' ⊢
    exact ⟨hk _ h.1 h'.1, combineFields hk hl fields h.2 h'.2⟩
  | javaScriptCodeWithScope code scope =>
    simp only [Throughout] at h h' ⊢
    exact ⟨hk _ h.1 h'.1, combineFields hk hl scope h.2 h'.2⟩
  | _ => exact hl _ h h'

theorem Throughout.combineItems (hk : ∀ ks, keys ks → keys' ks → keys'' ks)
    (hl : ∀ v, leaf v → leaf' v → leaf'' v) (vs : List Bson) (h : ThroughoutItems keys leaf vs)
    (h' : ThroughoutItems keys' leaf' vs) : ThroughoutItems keys'' leaf'' vs := by
  cases vs with
  | nil => trivial
  | cons v vs =>
    simp only [ThroughoutItems] at h h' ⊢
    exact ⟨combine hk hl v h.1 h'.1, combineItems hk hl vs h.2 h'.2⟩

theorem Throughout.combineFields (hk : ∀ ks, keys ks → keys' ks → keys'' ks)
    (hl : ∀ v, leaf v → leaf' v → leaf'' v) (fs : List (String × Bson))
    (h : ThroughoutFields keys leaf fs) (h' : ThroughoutFields keys' leaf' fs) :
    ThroughoutFields keys'' leaf'' fs := by
  match fs with
  | [] => trivial
  | (key, v) :: fs =>
    simp only [ThroughoutFields] at h h' ⊢
    exact ⟨combine hk hl v h.1 h'.1, combineFields hk hl fs h.2 h'.2⟩

end

end Throughout

example : levels (.document [("a", .array [.document []]), ("b", .int32 1)]) = 3 := by decide

end VgiBson.BsonValues
