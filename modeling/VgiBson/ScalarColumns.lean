import VgiBson.ReplicationClock

/-! # The columns of scalar functions

How a scalar function reads the cells of its argument, and the nullable columns it returns. Text,
bytes and lists are built with 32-bit offsets, so a builder panics when the column grows past them;
a null adds no data. -/

namespace VgiBson.ScalarColumns

open MachineBytes CursorWalks ArrowColumns ColumnEncoding ReplicationClock

variable {T : Target} {α ε : Type}

/-- A slice of bytes in memory. -/
def slice (T : Target) (data : List UInt8) : Outcome ε (Bytes T) :=
  if h : data.length ≤ T.isizeMax then .ok ⟨data, h⟩ else .error .panic

section Reading

-- the debug text of the type of an array
variable (debug : ArrayRef → String)

/-- The bytes in a slot of one of the types that are read as bytes. -/
def blobValue (T : Target) : ArrayRef → ℕ → Outcome RpcError (Bytes T)
  | .scalar .binary _ values, row => do
    let v ← element values row
    slice T v
  | .scalar .largeBinary _ values, row => do
    let v ← element values row
    slice T v
  | .scalar .utf8 _ values, row => do
    let v ← element values row
    slice T (utf8 v)
  | .scalar .largeUtf8 _ values, row => do
    let v ← element values row
    slice T (utf8 v)
  | other, _ =>
    .error (.error (.valueError ("expected a BLOB or VARCHAR argument, got " ++ debug other)))

/-- Borrow the raw bytes of a BLOB/VARCHAR input cell at `row`, or `none` if null. -/
def blobBytes (T : Target) (col : ArrayRef) (row : ℕ) : Outcome RpcError (Option (Bytes T)) := do
  if ← isNull col.nulls row then pure none else
  some <$> blobValue debug T col row

/-- The text in a slot of one of the types that are read as text. -/
def textValue : ArrayRef → ℕ → Outcome RpcError String
  | .scalar .utf8 _ values, row => element values row
  | .scalar .largeUtf8 _ values, row => element values row
  | other, _ => .error (.error (.valueError ("expected a VARCHAR argument, got " ++ debug other)))

/-- Borrow the UTF-8 text of a VARCHAR input cell at `row`, or `none` if null. -/
def textStr (col : ArrayRef) (row : ℕ) : Outcome RpcError (Option String) := do
  if ← isNull col.nulls row then pure none else
  some <$> textValue debug col row

end Reading

def textSize (v : Option String) : ℕ := (v.map fun s => (utf8 s).length).getD 0

def blobSize (v : Option (List UInt8)) : ℕ := (v.map List.length).getD 0

/-- Append all slots to a new builder and finish it. -/
def buildBytes (size : α → ℕ) (col : List α) : Outcome ε (List α) := do
  let b ← col.foldlM ByteBuilder.appendValue (ByteBuilder.new : ByteBuilder size)
  pure b.values

/-- A builder of lists of texts, whose offsets into the items are 32-bit too. -/
structure ListBuilder where
  values : ByteBuilder fun s : String => (utf8 s).length
  rows : List (Option (List String))
  counted : values.values.length ≤ maxOffset

def ListBuilder.new : ListBuilder := ⟨.new, [], Nat.zero_le _⟩

/-- Append the items of a row and then the row itself. -/
def ListBuilder.append (b : ListBuilder) (row : Option (List String)) : Outcome ε ListBuilder := do
  let values ← (row.getD []).foldlM ByteBuilder.appendValue b.values
  if h : values.values.length ≤ maxOffset then .ok ⟨values, b.rows ++ [row], h⟩
  else .error .panic

/-- The rows of a `STRUCT(ok, error, kind)`. -/
structure DiagnosisArray where
  ok : List (Option Bool)
  error : List (Option String)
  kind : List (Option String)
  valid : List Bool
  aligned : ok.length = valid.length ∧ error.length = valid.length ∧ kind.length = valid.length

inductive ResultColumn where
  | boolean (rows : List (Option Bool))
  | utf8 (rows : List (Option String))
  | binary (rows : List (Option (List UInt8)))
  | listUtf8 (rows : List (Option (List String)))
  | wellFormed (rows : DiagnosisArray)
  | clock (rows : OutputColumn)

def stringArray (col : List (Option String)) : Outcome ε ResultColumn :=
  .utf8 <$> buildBytes textSize col

def binaryArray (col : List (Option (List UInt8))) : Outcome ε ResultColumn :=
  .binary <$> buildBytes blobSize col

def boolOptArray (col : List (Option Bool)) : ResultColumn := .boolean col

def listStringArray (col : List (Option (List String))) : Outcome ε ResultColumn := do
  let b ← col.foldlM ListBuilder.append ListBuilder.new
  pure (.listUtf8 b.rows)

/-- Assemble a `well_formed` STRUCT array from per-row component columns. -/
def wellFormedArray (ok : List (Option Bool)) (error kind : List (Option String))
    (valid : List Bool) : Outcome ε ResultColumn := do
  let error ← buildBytes textSize error
  let kind ← buildBytes textSize kind
  if h : ok.length = valid.length ∧ error.length = valid.length ∧ kind.length = valid.length then
    .ok (.wellFormed ⟨ok, error, kind, valid, h⟩)
  else .error .panic

inductive ResultType where
  | boolean
  | utf8
  | binary
  | listUtf8
  | wellFormed
  | clock (ty : OutputType)
  deriving DecidableEq, Repr

def ResultColumn.dataType : ResultColumn → ResultType
  | .boolean _ => .boolean
  | .utf8 _ => .utf8
  | .binary _ => .binary
  | .listUtf8 _ => .listUtf8
  | .wellFormed _ => .wellFormed
  | .clock rows => .clock rows.dataType

def ResultColumn.hasNulls : ResultColumn → Bool
  | .boolean rows => rows.any Option.isNone
  | .utf8 rows => rows.any Option.isNone
  | .binary rows => rows.any Option.isNone
  | .listUtf8 rows => rows.any Option.isNone
  | .wellFormed rows => rows.valid.any not
  | .clock rows => rows.hasNulls

structure ResultField where
  name : String
  dataType : ResultType
  nullable : Bool
  deriving DecidableEq, Repr

/-- A column that fits a schema. -/
structure ResultBatch where
  schema : List ResultField
  column : ResultColumn
  typed : schema.map ResultField.dataType = [column.dataType]

/-- `RecordBatch::try_new` with one column. -/
def ResultBatch.tryNew (schema : List ResultField) (column : ResultColumn) :
    Except ArrowError ResultBatch :=
  if schema.length ≠ 1 then .error .columnCount
  else if schema.any (fun f => !f.nullable) && column.hasNulls then .error .nullValue
  else if h : schema.map ResultField.dataType = [column.dataType] then .ok ⟨schema, column, h⟩
  else .error .columnType

/-- A column of bytes is built if all its data can be addressed. -/
theorem buildBytes_eq (size : α → ℕ) (col : List α) : (buildBytes size col : Outcome ε _) =
    if (col.map size).sum ≤ maxOffset then .ok col else .error .panic := by
  have htotal : (ByteBuilder.new : ByteBuilder size).total = 0 := rfl
  split
  · next h =>
    obtain ⟨b, hb, hvalues⟩ := ByteBuilder.foldlM_appendValue_of_le (ε := ε)
      (b := (ByteBuilder.new : ByteBuilder size)) (by rwa [htotal, Nat.zero_add])
    rw [buildBytes, hb]
    exact congrArg Except.ok hvalues
  · next h =>
    rw [buildBytes, ByteBuilder.foldlM_appendValue_of_lt
      (by rw [htotal, Nat.zero_add]; exact Nat.not_le.mp h)]
    rfl

/-- The items of all rows. -/
def allItems (col : List (Option (List String))) : List String := col.flatMap (·.getD [])

/-- The items and their data have to be addressed. -/
theorem rows_foldlM_append (col : List (Option (List String))) (b : ListBuilder) :
    (ListBuilder.rows <$> col.foldlM ListBuilder.append b : Outcome ε _) =
      if b.values.total + ((allItems col).map fun s => (utf8 s).length).sum ≤ maxOffset ∧
          b.values.values.length + (allItems col).length ≤ maxOffset then .ok (b.rows ++ col)
      else .error .panic := by
  induction col generalizing b with
  | nil =>
    rw [if_pos ⟨b.values.fits, b.counted⟩, List.append_nil]
    rfl
  | cons row col ih =>
    have hitems : allItems (row :: col) = row.getD [] ++ allItems col := rfl
    simp only [hitems, List.map_append, List.sum_append, List.length_append, List.foldlM_cons]
    by_cases hbytes : b.values.total + ((row.getD []).map fun s => (utf8 s).length).sum ≤ maxOffset
    · obtain ⟨values, hvalues, hrow⟩ := ByteBuilder.foldlM_appendValue_of_le (ε := ε) hbytes
      have htotal : values.total =
          b.values.total + ((row.getD []).map fun s => (utf8 s).length).sum := by
        rw [ByteBuilder.total, hrow, List.map_append, List.sum_append]
        rfl
      have hcount : values.values.length = b.values.values.length + (row.getD []).length := by
        rw [hrow, List.length_append]
      by_cases hlen : values.values.length ≤ maxOffset
      · have hstep : (ListBuilder.append b row : Outcome ε _) =
            .ok ⟨values, b.rows ++ [row], hlen⟩ := by
          rw [ListBuilder.append, hvalues]
          exact dif_pos hlen
        rw [hstep]
        refine (ih ⟨values, b.rows ++ [row], hlen⟩).trans ?_
        simp only [htotal, hcount, Nat.add_assoc, List.append_assoc, List.singleton_append]
      · have hstep : (ListBuilder.append b row : Outcome ε _) = .error .panic := by
          rw [ListBuilder.append, hvalues]
          exact dif_neg hlen
        rw [hstep, if_neg (by omega)]
        rfl
    · have hstep : (ListBuilder.append b row : Outcome ε _) = .error .panic := by
        rw [ListBuilder.append, ByteBuilder.foldlM_appendValue_of_lt (Nat.not_le.mp hbytes)]
        rfl
      rw [hstep, if_neg (by omega)]
      rfl

theorem listStringArray_eq (col : List (Option (List String))) :
    (listStringArray col : Outcome ε _) =
      if ((allItems col).map fun s => (utf8 s).length).sum ≤ maxOffset ∧
          (allItems col).length ≤ maxOffset then .ok (.listUtf8 col) else .error .panic := by
  have hrows := rows_foldlM_append (ε := ε) col ListBuilder.new
  have htotal : ListBuilder.new.values.total = 0 := rfl
  have hcount : ListBuilder.new.values.values.length = 0 := rfl
  have hlist : (listStringArray col : Outcome ε _) =
      ResultColumn.listUtf8 <$> ListBuilder.rows <$>
        col.foldlM ListBuilder.append ListBuilder.new := by
    rw [listStringArray]
    cases (col.foldlM ListBuilder.append ListBuilder.new : Outcome ε _) <;> rfl
  rw [hlist, hrows, htotal, hcount, Nat.zero_add, Nat.zero_add]
  split <;> rfl

end VgiBson.ScalarColumns
