import Mathlib.Algebra.BigOperators.Group.List.Basic
import VgiBson.CursorWalks

/-! # Columns, builders and record batches

The columnar results of the worker's functions. A byte column is built with 32-bit offsets, so a
builder carries the bound on its data as an invariant and an append past it panics. -/

namespace VgiBson.ArrowColumns

open MachineBytes CursorWalks

variable {T : Target} {α : Type}

/-- What `RecordBatch::try_new` finds wrong, in the order in which it looks. -/
inductive ArrowError where
  | columnCount
  | rowCount
  | nullValue
  | columnLength
  | columnType
  deriving DecidableEq, Repr

/-- The errors that worker functions report; the last one is a runtime error whose text is that of
the error of arrow. -/
inductive RpcError where
  | valueError (message : String)
  | runtimeError (message : String)
  | arrowError (error : ArrowError)
  deriving DecidableEq, Repr

inductive DataType where
  | int64
  | binary
  | utf8
  deriving DecidableEq, Repr

structure Field where
  name : String
  dataType : DataType
  nullable : Bool
  deriving DecidableEq, Repr

/-- A finished column without nulls. -/
inductive Column (T : Target) where
  | int64 (values : List ℤ)
  | binary (values : List (Bytes T))
  | utf8 (values : List String)
  deriving DecidableEq, Repr

def Column.dataType : Column T → DataType
  | .int64 _ => .int64
  | .binary _ => .binary
  | .utf8 _ => .utf8

def Column.length : Column T → ℕ
  | .int64 values => values.length
  | .binary values => values.length
  | .utf8 values => values.length

/-- Columns that fit a schema and have one length. -/
structure RecordBatch (T : Target) where
  schema : List Field
  columns : List (Column T)
  numRows : ℕ
  typed : columns.map Column.dataType = schema.map Field.dataType
  aligned : ∀ c ∈ columns, c.length = numRows

/-- `RecordBatch::try_new`; no column here has nulls. -/
def RecordBatch.tryNew (schema : List Field) (columns : List (Column T)) :
    Except ArrowError (RecordBatch T) :=
  if schema.length ≠ columns.length then .error .columnCount else
  -- the first column says how many rows there are
  match columns.head?.map Column.length with
  | none => .error .rowCount
  | some numRows =>
    if haligned : ∀ c ∈ columns, c.length = numRows then
      if htyped : columns.map Column.dataType = schema.map Field.dataType then
        .ok ⟨schema, columns, numRows, htyped, haligned⟩
      else .error .columnType
    else .error .columnLength

theorem RecordBatch.tryNew_of_aligned {schema : List Field} {columns : List (Column T)} {n : ℕ}
    (htyped : columns.map Column.dataType = schema.map Field.dataType)
    (haligned : ∀ c ∈ columns, c.length = n)
    (hn : columns.head?.map Column.length = some n) :
    tryNew schema columns = .ok ⟨schema, columns, n, htyped, haligned⟩ := by
  have hcount : columns.length = schema.length := by
    simpa only [List.length_map] using congrArg List.length htyped
  simp only [tryNew, hcount, hn, htyped, ne_eq, not_true_eq_false, if_false, dif_pos]
  exact dif_pos haligned

/-- The greatest 32-bit offset. -/
def maxOffset : ℕ := 2 ^ 31 - 1

/-- A builder of a column of byte strings, whose offsets are 32-bit. -/
structure ByteBuilder (size : α → ℕ) where
  values : List α
  fits : (values.map size).sum ≤ maxOffset

namespace ByteBuilder

variable {size : α → ℕ} {ε : Type}

def new : ByteBuilder size := ⟨[], Nat.zero_le _⟩

def total (b : ByteBuilder size) : ℕ := (b.values.map size).sum

/-- `append_value`: the next offset has to fit, otherwise the call panics. -/
def appendValue (b : ByteBuilder size) (v : α) : Outcome ε (ByteBuilder size) :=
  if h : ((b.values ++ [v]).map size).sum ≤ maxOffset then .ok ⟨b.values ++ [v], h⟩
  else .error .panic

theorem appendValue_of_le {b : ByteBuilder size} {v : α} (h : b.total + size v ≤ maxOffset) :
    ∃ b' : ByteBuilder size, (b.appendValue v : Outcome ε _) = .ok b' ∧
      b'.values = b.values ++ [v] ∧ b'.total = b.total + size v := by
  have hs : ((b.values ++ [v]).map size).sum = b.total + size v := by simp [total]
  refine ⟨⟨b.values ++ [v], hs ▸ h⟩, ?_, rfl, hs⟩
  rw [appendValue, dif_pos (hs ▸ h)]

theorem appendValue_of_lt {b : ByteBuilder size} {v : α} (h : maxOffset < b.total + size v) :
    (b.appendValue v : Outcome ε _) = .error .panic := by
  have hs : ((b.values ++ [v]).map size).sum = b.total + size v := by simp [total]
  rw [appendValue, dif_neg (by omega)]

/-- A loop of appends adds all values while there is room for them. -/
theorem foldlM_appendValue_of_le {vs : List α} {b : ByteBuilder size}
    (h : b.total + (vs.map size).sum ≤ maxOffset) :
    ∃ b' : ByteBuilder size, (vs.foldlM appendValue b : Outcome ε _) = .ok b' ∧
      b'.values = b.values ++ vs := by
  induction vs generalizing b with
  | nil => exact ⟨b, rfl, (List.append_nil _).symm⟩
  | cons v vs ih =>
    simp only [List.map_cons, List.sum_cons] at h
    obtain ⟨b₁, hb₁, hvalues, htotal⟩ := appendValue_of_le (ε := ε) (b := b) (v := v) (by omega)
    obtain ⟨b', hb', hvalues'⟩ := ih (b := b₁) (by omega)
    refine ⟨b', ?_, ?_⟩
    · rw [List.foldlM_cons, hb₁]
      exact hb'
    · rw [hvalues', hvalues, List.append_assoc, List.singleton_append]

/-- Without the room one of them panics. -/
theorem foldlM_appendValue_of_lt {vs : List α} {b : ByteBuilder size}
    (h : maxOffset < b.total + (vs.map size).sum) :
    (vs.foldlM appendValue b : Outcome ε _) = .error .panic := by
  induction vs generalizing b with
  | nil =>
    have hfits := b.fits
    simp only [total, List.map_nil, List.sum_nil] at h
    omega
  | cons v vs ih =>
    simp only [List.map_cons, List.sum_cons] at h
    rw [List.foldlM_cons]
    by_cases hv : b.total + size v ≤ maxOffset
    · obtain ⟨b₁, hb₁, -, htotal⟩ := appendValue_of_le (ε := ε) hv
      rw [hb₁]
      exact ih (by omega)
    · rw [appendValue_of_lt (Nat.not_le.mp hv)]
      rfl

end ByteBuilder

end VgiBson.ArrowColumns
