import VgiBson.ArrowColumns
import VgiBson.DocumentDecoding

/-! # Encoding columns

Input columns of the encoder, from one cell to one document. A column is a tree of arrays with null
masks and offsets, and a row of it is read into the value model. Floating-point conversions are a
parameter. -/

namespace VgiBson.ColumnEncoding

open MachineBytes CursorWalks ArrowColumns BsonValues DocumentDecoding

variable {α ε : Type}

inductive TimeUnit where
  | second
  | millisecond
  | microsecond
  | nanosecond
  deriving DecidableEq, Repr

/-- A 128-bit signed integer. -/
abbrev I128 := {i : ℤ // -(2 ^ 127) ≤ i ∧ i < 2 ^ 127}

/-- The types of arrays without children that the encoder supports. -/
inductive ScalarType where
  | boolean
  | int8
  | int16
  | int32
  | int64
  | uint8
  | uint16
  | uint32
  | uint64
  | float32
  | float64
  | decimal128 (scale : Int8)
  | utf8
  | largeUtf8
  | binary
  | largeBinary
  | fixedSizeBinary (size : ℕ)
  | timestamp (unit : TimeUnit)
  deriving DecidableEq, Repr

/-- The slots of an array of the type; floating-point numbers are kept as their bits. -/
abbrev ScalarType.Value : ScalarType → Type
  | .boolean => Bool
  | .int8 => Int8
  | .int16 => Int16
  | .int32 => Int32
  | .int64 => Int64
  | .uint8 => UInt8
  | .uint16 => UInt16
  | .uint32 => UInt32
  | .uint64 => UInt64
  | .float32 => UInt32
  | .float64 => UInt64
  | .decimal128 _ => I128
  | .utf8 => String
  | .largeUtf8 => String
  | .binary => List UInt8
  | .largeBinary => List UInt8
  | .fixedSizeBinary size => Vector UInt8 size
  | .timestamp _ => Int64

/-- Where the rows of a nested array begin and end in its child. -/
structure OffsetBuffer where
  offsets : List ℕ
  monotone : offsets.Pairwise (· ≤ ·)

def OffsetBuffer.rows (o : OffsetBuffer) : ℕ := o.offsets.length - 1

/-- The child rows of the slice at `row`, which has to lie within the child. -/
def OffsetBuffer.slice (o : OffsetBuffer) (childLen row : ℕ) : Outcome ε (List ℕ) :=
  match o.offsets[row]?, o.offsets[row + 1]? with
  | some start, some stop =>
    if stop ≤ childLen then .ok (List.range' start (stop - start)) else .error .panic
  | _, _ => .error .panic

/-- A null mask: no mask, or the validity of each row. -/
abbrev Nulls := Option (List Bool)

/-- An array; `other` is one of a type that the encoder does not support. -/
inductive ArrayRef where
  | null (len : ℕ)
  | scalar (ty : ScalarType) (nulls : Nulls) (values : List ty.Value)
  | list (nulls : Nulls) (offsets : OffsetBuffer) (values : ArrayRef)
  | struct (len : ℕ) (nulls : Nulls) (columns : List (String × ArrayRef))
  | map (nulls : Nulls) (offsets : OffsetBuffer) (keys values : ArrayRef)
  | other (debug : String) (len : ℕ) (nulls : Nulls)

def ArrayRef.len : ArrayRef → ℕ
  | .null len => len
  | .scalar _ _ values => values.length
  | .list _ offsets _ => offsets.rows
  | .struct len _ _ => len
  | .map _ offsets _ _ => offsets.rows
  | .other _ len _ => len

def ArrayRef.nulls : ArrayRef → Nulls
  | .null _ => none
  | .scalar _ nulls _ => nulls
  | .list nulls _ _ => nulls
  | .struct _ nulls _ => nulls
  | .map nulls _ _ _ => nulls
  | .other _ _ nulls => nulls

/-- `values[i]`. -/
def element (values : List α) (i : ℕ) : Outcome ε α :=
  match values[i]? with
  | some v => .ok v
  | none => .error .panic

/-- `array.is_null(row)`, where an array without a mask has no nulls. -/
def isNull (nulls : Nulls) (row : ℕ) : Outcome ε Bool :=
  match nulls with
  | none => .ok false
  | some valid => do
    let v ← element valid row
    pure !v

/-- The row is not null. -/
def IsValid (nulls : Nulls) (row : ℕ) : Prop :=
  ∀ valid, nulls = some valid → valid[row]? = some true

theorem isValid_none (row : ℕ) : IsValid none row := nofun

theorem isNull_of_isValid {nulls : Nulls} {row : ℕ} (h : IsValid nulls row) :
    (isNull nulls row : Outcome ε Bool) = .ok false := by
  cases nulls with
  | none => rfl
  | some valid =>
    have hrow := h valid rfl
    rw [isNull, element, hrow]
    rfl

/-- The value at a row that is not null. -/
def HoldsAt (nulls : Nulls) (values : List α) (row : ℕ) (x : α) : Prop :=
  IsValid nulls row ∧ values[row]? = some x

theorem HoldsAt.element {nulls : Nulls} {values : List α} {row : ℕ} {x : α}
    (h : HoldsAt nulls values row x) : (element values row : Outcome ε α) = .ok x := by
  rw [ColumnEncoding.element, h.2]

/-- The floating-point conversions of the language, on bits. -/
structure Floats where
  ofFloat32 : UInt32 → UInt64
  ofUInt64 : UInt64 → UInt64
  ofScaled : I128 → Int8 → UInt64

variable (crates : Crates) (floats : Floats)

def intFromU64 (v : UInt64) : Bson :=
  if v.toNat < 2 ^ 31 then .int32 (Int32.ofNat v.toNat)
  else if v.toNat < 2 ^ 63 then .int64 (Int64.ofNat v.toNat)
  -- beyond `i64`: a double
  else .double (floats.ofUInt64 v)

/-- `-x` on `i8`. -/
def negI8 (x : Int8) : Outcome ε Int8 := if x = Int8.minValue then .error .panic else .ok (-x)

/-- Format a scaled integer with `scale` fractional digits as a decimal string. -/
def formatDecimal (raw : I128) (scale : Int8) : Outcome ε String :=
  if scale ≤ 0 then do
    let zeros ← negI8 scale
    pure (toString raw.val ++ String.ofList (List.replicate zeros.toInt.toNat '0'))
  else do
    let neg := raw.val < 0
    let digits := toString raw.val.natAbs
    let scale := scale.toInt.toNat
    let len := (utf8 digits).length
    let s ←
      if len ≤ scale then
        pure ("0." ++ String.ofList (List.replicate (scale - len) '0') ++ digits)
      else do
        let point := len - scale
        let whole ← strRange digits 0 point
        let fraction ← strRange digits point len
        pure (whole ++ "." ++ fraction)
    pure (if neg then "-" ++ s else s)

/-- Build a decimal from a scaled integer by parsing its exact text. -/
def decimal128FromScaled (raw : I128) (scale : Int8) : Outcome ε Bson := do
  let s ← formatDecimal raw scale
  match crates.decimalFromStr s with
  | .ok d => pure (.decimal128 d)
  | .error _ => pure (.double (floats.ofScaled raw scale))

/-- `x.saturating_mul(y)` on `i64`. -/
def saturatingMul (x y : Int64) : Int64 :=
  Int64.ofInt (max (-(2 ^ 63)) (min (2 ^ 63 - 1) (x.toInt * y.toInt)))

theorem toInt_saturatingMul {x y : Int64} (hlo : -(2 ^ 63) ≤ x.toInt * y.toInt)
    (hhi : x.toInt * y.toInt < 2 ^ 63) : (saturatingMul x y).toInt = x.toInt * y.toInt := by
  have hclamp : max (-(2 ^ 63)) (min (2 ^ 63 - 1) (x.toInt * y.toInt)) = x.toInt * y.toInt := by
    rw [min_eq_right (by omega), max_eq_right hlo]
  rw [saturatingMul, hclamp, Int64.toInt_ofInt_of_le hlo hhi]

def timestampMillis (unit : TimeUnit) (raw : Int64) : Int64 :=
  match unit with
  | .second => saturatingMul raw 1000
  | .millisecond => raw
  | .microsecond => raw / 1000
  | .nanosecond => raw / 1000000

/-- The arms of `value_at` for arrays without children. -/
def scalarValue : (ty : ScalarType) → ty.Value → Outcome ε Bson
  | .boolean, b => pure (.boolean b)
  | .int8, i => pure (.int32 i.toInt32)
  | .int16, i => pure (.int32 i.toInt32)
  | .int32, i => pure (.int32 i)
  | .int64, i => pure (.int64 i)
  | .uint8, i => pure (.int32 i.toUInt32.toInt32)
  | .uint16, i => pure (.int32 i.toUInt32.toInt32)
  | .uint32, i => pure (.int64 i.toUInt64.toInt64)
  | .uint64, i => pure (intFromU64 floats i)
  | .float32, x => pure (.double (floats.ofFloat32 x))
  | .float64, x => pure (.double x)
  | .decimal128 scale, raw => decimal128FromScaled crates floats raw scale
  | .utf8, s => pure (.string s)
  | .largeUtf8, s => pure (.string s)
  | .binary, bytes => pure (.binary .generic bytes)
  | .largeBinary, bytes => pure (.binary .generic bytes)
  -- a UUID arrives as a 16-byte fixed binary
  | .fixedSizeBinary size, bytes =>
    pure (.binary (if size = 16 then .uuid else .generic) bytes.toList)
  | .timestamp unit, raw => pure (.dateTime (timestampMillis unit raw))

/-- The key at `row` of the keys of a map, given the value there. Text is read without a null
check. -/
def keyText (keys : ArrayRef) (row : ℕ) (value : Outcome RpcError Bson) :
    Outcome RpcError String :=
  match keys with
  | .scalar .utf8 _ values => element values row
  | .scalar .largeUtf8 _ values => element values row
  | _ => do
    match ← value with
    | .string s => pure s
    | other => pure (crates.display other)

mutual

/-- Read element `row` of an array as a value. -/
def valueAt : ArrayRef → ℕ → Outcome RpcError Bson
  | .null _, _ => pure .null
  | .scalar ty nulls values, row => do
    if ← isNull nulls row then pure .null else
    let v ← element values row
    scalarValue crates floats ty v
  | .list nulls offsets values, row => do
    if ← isNull nulls row then pure .null else
    let rows ← offsets.slice values.len row
    let out ← rows.mapM (fun i => valueAt values i)
    pure (.array out)
  | .struct _ nulls columns, row => do
    if ← isNull nulls row then pure .null else
    let doc ← insertColumns columns row []
    pure (.document doc)
  | .map nulls offsets keys values, row => do
    if ← isNull nulls row then pure .null else
    let rows ← offsets.slice values.len row
    let doc ← rows.foldlM (fun doc i => do
      let key ← keyText crates keys i (valueAt keys i)
      let v ← valueAt values i
      pure (crates.insert doc key v)) []
    pure (.document doc)
  | .other debug _ nulls, row => do
    if ← isNull nulls row then pure .null else
    .error (.error (.runtimeError ("encode: unsupported input type " ++ debug)))

/-- The loop over the columns of a struct. -/
def insertColumns : List (String × ArrayRef) → ℕ → Document → Outcome RpcError Document
  | [], _, doc => pure doc
  | (name, column) :: columns, row, doc => do
    let v ← valueAt column row
    insertColumns columns row (crates.insert doc name v)

end

/-- The key at `row` of the keys of a map. -/
def mapKey (keys : ArrayRef) (row : ℕ) : Outcome RpcError String :=
  keyText crates keys row (valueAt crates floats keys row)

/-- The arm of maps: a loop over the entries that inserts each value under its key. -/
theorem valueAt_map (nulls : Nulls) (offsets : OffsetBuffer) (keys values : ArrayRef) (row : ℕ) :
    valueAt crates floats (.map nulls offsets keys values) row =
      (do
        if ← isNull nulls row then return .null
        let rows ← offsets.slice values.len row
        let doc ← rows.foldlM (fun doc i => do
          let key ← mapKey crates floats keys i
          let v ← valueAt crates floats values i
          return crates.insert doc key v) []
        return .document doc) := by
  rw [valueAt]
  rfl

/-- Encode element `row` of an array as the bytes of a top-level document. -/
def encodeDocument (array : ArrayRef) (row : ℕ) : Outcome RpcError (Option (List UInt8)) := do
  if ← isNull array.nulls row then pure none else
  match ← valueAt crates floats array row with
  | .document doc =>
    let out ← fallible ((crates.toWriter doc).mapError .runtimeError)
    pure (some out)
  | _ => .error (.error (.runtimeError
      "encode: the top-level value must be a STRUCT or MAP (BSON has no top-level scalar)"))

end VgiBson.ColumnEncoding
