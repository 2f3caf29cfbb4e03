import VgiBson.ColumnEncoding

/-! # The replication clock

The helpers on columns of `STRUCT(t, i)`: one normalizes both numbers to `u32`, the other turns the
seconds into a timestamp in microseconds. They accept a column of any type. -/

namespace VgiBson.ReplicationClock

open CursorWalks ArrowColumns ColumnEncoding

variable {ε : Type}

/-- `array.as_struct()`: the columns of a struct. -/
def asStruct : ArrayRef → Outcome ε (List (String × ArrayRef))
  | .struct _ _ columns => .ok columns
  | _ => .error .panic

/-- The first column with the name. -/
def columnByName (columns : List (String × ArrayRef)) (name : String) : Option ArrayRef :=
  (columns.find? (·.1 = name)).map Prod.snd

/-- The slot of a column of one of four integer types, cast with `as u32`. -/
def valueU32 : ArrayRef → ℕ → Outcome ε (Option UInt32)
  | .scalar .uint32 _ values, row => do
    let v ← element values row
    pure (some v)
  | .scalar .uint64 _ values, row => do
    let v ← element values row
    pure (some v.toUInt32)
  | .scalar .int32 _ values, row => do
    let v ← element values row
    pure (some v.toUInt32)
  | .scalar .int64 _ values, row => do
    let v ← element values row
    pure (some v.toUInt64.toUInt32)
  | _, _ => pure none

/-- Read a `u32`-ish integer field from a struct column at `row`. -/
def structU32 (col : ArrayRef) (name : String) (row : ℕ) : Outcome ε (Option UInt32) := do
  if ← isNull col.nulls row then pure none else
  let columns ← asStruct col
  match columnByName columns name with
  | none => pure none
  | some child =>
    if ← isNull child.nulls row then pure none else
    valueU32 child row

/-- The types of the two output columns. -/
inductive OutputType where
  | timestamptz
  | timestampParts
  deriving DecidableEq, Repr

/-- The rows of a `STRUCT(t, i)`. -/
structure PartsArray where
  t : List (Option UInt32)
  i : List (Option UInt32)
  valid : List Bool
  aligned : t.length = valid.length ∧ i.length = valid.length

inductive OutputColumn where
  | timestamptz (micros : List (Option Int64))
  | timestampParts (parts : PartsArray)

def OutputColumn.dataType : OutputColumn → OutputType
  | .timestamptz _ => .timestamptz
  | .timestampParts _ => .timestampParts

def OutputColumn.hasNulls : OutputColumn → Bool
  | .timestamptz micros => micros.any Option.isNone
  | .timestampParts parts => parts.valid.any not

/-- A column of timestamps from milliseconds. -/
def tsMillisArray (col : List (Option Int64)) : OutputColumn :=
  .timestamptz (col.map (Option.map fun ms => saturatingMul ms 1000))

/-- A column of structs; the two builders see the rows that both lists have. -/
def timestampPartsArray (t i : List (Option UInt32)) (valid : List Bool) :
    Outcome ε OutputColumn :=
  let tb := (t.zip i).map Prod.fst
  let ib := (t.zip i).map Prod.snd
  if h : tb.length = valid.length ∧ ib.length = valid.length then
    .ok (.timestampParts ⟨tb, ib, valid, h⟩)
  else .error .panic

structure OutputField where
  name : String
  dataType : OutputType
  nullable : Bool
  deriving DecidableEq, Repr

/-- A column that fits a schema. -/
structure OutputBatch where
  schema : List OutputField
  column : OutputColumn
  typed : schema.map OutputField.dataType = [column.dataType]

/-- `RecordBatch::try_new` with one column. -/
def OutputBatch.tryNew (schema : List OutputField) (column : OutputColumn) :
    Except ArrowError OutputBatch :=
  if schema.length ≠ 1 then .error .columnCount
  else if schema.any (fun f => !f.nullable) && column.hasNulls then .error .nullValue
  else if h : schema.map OutputField.dataType = [column.dataType] then .ok ⟨schema, column, h⟩
  else .error .columnType

/-- `x * y` on `i64`. -/
def mulI64 (x y : Int64) : Outcome ε Int64 :=
  if -(2 ^ 63) ≤ x.toInt * y.toInt ∧ x.toInt * y.toInt < 2 ^ 63 then .ok (x * y)
  else .error .panic

/-- The seconds of a row as milliseconds. -/
def TimestampToTs.cell (col : ArrayRef) (row : ℕ) : Outcome ε (Option Int64) := do
  match ← structU32 col "t" row with
  | none => pure none
  | some t =>
    let ms ← mulI64 t.toUInt64.toInt64 1000
    pure (some ms)

/-- The type that the function binds to. -/
def TimestampToTs.onBind : OutputType := .timestamptz

def TimestampToTs.process (schema : List OutputField) (col : ArrayRef) :
    Outcome RpcError OutputBatch := do
  let out ← (List.range col.len).mapM (TimestampToTs.cell col)
  fallible ((OutputBatch.tryNew schema (tsMillisArray out)).mapError .arrowError)

/-- What a row adds to the two numbers and to the null mask. -/
def TimestampParts.cell (col : ArrayRef) (row : ℕ) :
    Outcome ε (Option UInt32 × Option UInt32 × Bool) := do
  if ← isNull col.nulls row then pure (none, none, false) else
  let t ← structU32 col "t" row
  let inc ← structU32 col "i" row
  pure (t, inc, true)

/-- The type that the function binds to. -/
def TimestampParts.onBind : OutputType := .timestampParts

def TimestampParts.process (schema : List OutputField) (col : ArrayRef) :
    Outcome RpcError OutputBatch := do
  let cells ← (List.range col.len).mapM (TimestampParts.cell col)
  let arr ← timestampPartsArray (cells.map (·.1)) (cells.map (·.2.1)) (cells.map (·.2.2))
  fallible ((OutputBatch.tryNew schema arr).mapError .arrowError)

end VgiBson.ReplicationClock
