import Mathlib.Data.List.Forall2
import VgiBson.CursorBounds
import VgiBson.ReplicationClock

/-! # What the clock helpers deliver

The helpers read four integer types and cast them, so a number is delivered as it is when it fits
`u32`, and changed when it does not. They panic on a column that is not a struct. -/

namespace VgiBson.ClockDelivery

open CursorWalks CursorBounds ArrowColumns ColumnEncoding ReplicationClock

variable {ε : Type}

/-- The number in a slot of an integer type. -/
def integerOf : (ty : ScalarType) → ty.Value → Option ℤ
  | .int8, x => some x.toInt
  | .int16, x => some x.toInt
  | .int32, x => some x.toInt
  | .int64, x => some x.toInt
  | .uint8, x => some x.toNat
  | .uint16, x => some x.toNat
  | .uint32, x => some x.toNat
  | .uint64, x => some x.toNat
  | _, _ => none

/-- A number that fits is delivered as it is, and anything else is null. -/
def Exact : Option ℤ → Option UInt32 → Prop
  | some n, some u => (u.toNat : ℤ) = n
  | some n, none => ¬ (0 ≤ n ∧ n < 2 ^ 32)
  | none, u => u = none

/-- The null mask of an array has an entry for each row. -/
def Masked (array : ArrayRef) : Prop := ∀ valid, array.nulls = some valid → valid.length = array.len

/-- What every array keeps: masks and columns have one entry for each row. -/
structure WellFormed (col : ArrayRef) : Prop where
  masked : Masked col
  aligned : ∀ len nulls columns, col = .struct len nulls columns →
    ∀ c ∈ columns, c.2.len = len ∧ Masked c.2

def IsStruct (col : ArrayRef) : Prop := ∃ len nulls columns, col = .struct len nulls columns

/-- The field at a row is a number of an integer type, or null. -/
def FieldAt (columns : List (String × ArrayRef)) (name : String) (row : ℕ) (ty : ScalarType)
    (n : Option ℤ) : Prop :=
  ∃ nulls values, columnByName columns name = some (.scalar ty nulls values) ∧
    match n with
    | some n => ∃ x, HoldsAt nulls values row x ∧ integerOf ty x = some n
    | none => ¬ IsValid nulls row

theorem Masked.isNull_cases {array : ArrayRef} (h : Masked array) {row : ℕ}
    (hrow : row < array.len) :
    (isNull array.nulls row : Outcome ε Bool) = .ok true ∧ ¬ IsValid array.nulls row ∨
      (isNull array.nulls row : Outcome ε Bool) = .ok false ∧ IsValid array.nulls row := by
  cases hn : array.nulls with
  | none => exact .inr ⟨rfl, isValid_none row⟩
  | some valid =>
    have hlt : row < valid.length := h valid hn ▸ hrow
    have hget : valid[row]? = some valid[row] := List.getElem?_eq_getElem hlt
    cases hv : valid[row] with
    | true =>
      right
      have hvalid : IsValid (some valid) row := by
        intro valid' h'
        cases h'
        rw [hget, hv]
      exact ⟨isNull_of_isValid hvalid, hvalid⟩
    | false =>
      left
      rw [hv] at hget
      constructor
      · rw [isNull, element, hget]
        rfl
      · intro hvalid
        rw [hvalid valid rfl] at hget
        cases hget

section Struct

variable {len : ℕ} {nulls : Nulls} {columns : List (String × ArrayRef)} {row : ℕ} {name : String}

end Struct

/-- The column of a name has a row for each row of the struct. -/
theorem WellFormed.child {len : ℕ} {nulls : Nulls} {columns : List (String × ArrayRef)}
    (hwf : WellFormed (.struct len nulls columns)) {name : String} {child : ArrayRef}
    (hc : columnByName columns name = some child) : child.len = len ∧ Masked child := by
  obtain ⟨f, hf, rfl⟩ := Option.map_eq_some_iff.mp hc
  exact hwf.aligned len nulls columns rfl f (List.mem_of_find?_eq_some hf)

/-- Where a loop over an initial segment leaves what its step returns. -/
theorem getElem?_of_mapM_range {β : Type} {f : ℕ → Outcome ε β} {n : ℕ}
    {bs : List β}
    (h : (List.range n).mapM f = .ok bs) {k : ℕ} (hk : k < n) {b : β} (hb : f k = .ok b) :
    bs[k]? = some b := by
  have hsteps := mapM_eq_ok_iff.mp h
  have hlen : n = bs.length := by rw [← hsteps.length_eq, List.length_range]
  have hk' : k < bs.length := hlen ▸ hk
  have hstep := hsteps.get (by rwa [List.length_range]) hk'
  rw [List.get_eq_getElem, List.getElem_range, hb] at hstep
  rw [List.getElem?_eq_getElem hk']
  exact congrArg some (Except.ok.inj hstep).symm

/-- The schema that the engine makes of the type a function binds to. -/
def boundSchema (name : String) (ty : OutputType) : List OutputField := [⟨name, ty, true⟩]

/-- The column is a struct, or nothing is read from it. -/
def Readable (col : ArrayRef) : Prop := IsStruct col ∨ ∀ row < col.len, ¬ IsValid col.nulls row

/-- What is asked of the two functions at a row with the two fields: each of them exactly, and the
microseconds of the first. -/
def DeliversRow (col : ArrayRef) (row : ℕ) (t i : Option ℤ) : Prop :=
  ∀ name, ∃ batch parts batch' micros u v m,
    TimestampParts.process (boundSchema name TimestampParts.onBind) col = .ok batch ∧
    batch.column = .timestampParts parts ∧
    TimestampToTs.process (boundSchema name TimestampToTs.onBind) col = .ok batch' ∧
    batch'.column = .timestamptz micros ∧
    parts.t[row]? = some u ∧ parts.i[row]? = some v ∧ micros[row]? = some m ∧
    Exact t u ∧ Exact i v ∧ m.map Int64.toInt = u.map fun u => (u.toNat : ℤ) * 1000000

/-- A row of a struct that is not null, with the two fields of integer types. -/
def ClockRow (col : ArrayRef) (row : ℕ) (ty : ScalarType) (t : Option ℤ) (ty' : ScalarType)
    (i : Option ℤ) : Prop :=
  ∃ len nulls columns, col = .struct len nulls columns ∧ row < len ∧ IsValid nulls row ∧
    FieldAt columns "t" row ty t ∧ FieldAt columns "i" row ty' i

/-- What is asked of the two functions on a column: they return whatever the schema, and deliver the
rows with the two fields. -/
structure Delivers (col : ArrayRef) : Prop where
  returns : ∀ schema, Returned (TimestampParts.process schema col) ∧
    Returned (TimestampToTs.process schema col)
  rows : ∀ row ty t ty' i, ClockRow col row ty t ty' i → DeliversRow col row t i

section Rows

variable {col : ArrayRef} {row : ℕ} {u v : Option UInt32}

end Rows

theorem masked_of_none {array : ArrayRef} (h : array.nulls = none) : Masked array := by
  intro valid hvalid
  rw [h] at hvalid
  cases hvalid

end VgiBson.ClockDelivery
