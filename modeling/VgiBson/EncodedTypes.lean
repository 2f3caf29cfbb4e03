import VgiBson.EncodedPaths
import VgiBson.MapEntries

/-! # The types of encoded cells

The type of an Arrow array decides which types `type_of` reports for its cells, and a truth value, a
whole number or a text is projected as the text it has in SQL. -/

namespace VgiBson.EncodedTypes

open MachineBytes CursorWalks StructuralValidator BsonValues ArrowColumns DocumentDecoding
  CrateAssumptions LengthEquations FieldProjection ColumnEncoding EncodedDocuments MapEntries
  PathWalks DottedPaths EncodedPaths

variable {crates : Crates} {floats : Floats} {ε : Type}

/-- The types of the values in an array without children. -/
def scalarTypes : ScalarType → List String
  | .boolean => ["bool"]
  | .int8 | .int16 | .int32 | .uint8 | .uint16 => ["int"]
  | .int64 | .uint32 => ["long"]
  -- the smallest type that has the number
  | .uint64 => ["int", "long", "double"]
  | .float32 | .float64 => ["double"]
  -- a decimal of too many digits is a double
  | .decimal128 _ => ["decimal128", "double"]
  | .utf8 | .largeUtf8 => ["string"]
  | .binary | .largeBinary => ["binData:generic"]
  | .fixedSizeBinary size => [if size = 16 then "binData:uuid" else "binData:generic"]
  | .timestamp _ => ["date"]

def cellTypes : ArrayRef → List String
  | .null _ => []
  | .scalar ty _ _ => scalarTypes ty
  | .list _ _ _ => ["array"]
  | .struct _ _ _ => ["object"]
  | .map _ _ _ _ => ["object"]
  | .other _ _ _ => []

/-- The cell has a value. -/
def filled : Cell → Bool
  | (.null _, _) => false
  | (array, row) => holds array.nulls row

/-- The text of a truth value, of a whole number up to the greatest `i64`, or of a text. -/
def exactText : (ty : ScalarType) → ty.Value → Option String
  | .boolean, b => some (if b then "true" else "false")
  | .int8, i => some (toString i.toInt)
  | .int16, i => some (toString i.toInt)
  | .int32, i => some (toString i.toInt)
  | .int64, i => some (toString i.toInt)
  | .uint8, i => some (toString (i.toNat : ℤ))
  | .uint16, i => some (toString (i.toNat : ℤ))
  | .uint32, i => some (toString (i.toNat : ℤ))
  | .uint64, i => if i.toNat < 2 ^ 63 then some (toString (i.toNat : ℤ)) else none
  | .utf8, s => some s
  | .largeUtf8, s => some s
  | _, _ => none

theorem typeName_of_scalarValue {ty : ScalarType} {x : ty.Value} {v : Bson}
    (h : (scalarValue crates floats ty x : Outcome ε Bson) = .ok v) :
    typeName v ∈ scalarTypes ty := by
  cases ty with
  | uint64 =>
    cases h
    simp only [intFromU64]
    split
    · exact .head _
    · split
      · exact .tail _ (.head _)
      · exact .tail _ (.tail _ (.head _))
  | decimal128 scale =>
    obtain ⟨s, -, hs⟩ := bind_eq_ok_iff.mp h
    split at hs
    · cases hs
      exact .head _
    · cases hs
      exact .tail _ (.head _)
  | fixedSizeBinary size =>
    cases h
    rw [typeName, scalarTypes, List.mem_singleton]
    split <;> rfl
  | _ =>
    cases h
    exact .head _

/-- No value of an array is null. -/
theorem null_notMem_cellTypes (array : ArrayRef) : "null" ∉ cellTypes array := by
  cases array with
  | scalar ty nulls values =>
    cases ty with
    | fixedSizeBinary size =>
      rw [cellTypes, scalarTypes, List.mem_singleton]
      split <;> decide
    | _ => simp [cellTypes, scalarTypes]
  | _ => simp [cellTypes]

/-- An empty cell is read as null, a filled one as a value of a type of its array. -/
theorem typeName_of_readsAs {cell : Cell} {v : Bson} (h : ReadsAs crates floats cell v) :
    (filled cell = true → typeName v ∈ cellTypes cell.1) ∧ (filled cell = false → v = .null) := by
  obtain ⟨array, row⟩ := cell
  -- the null check is the same for all arrays but those without a type
  have hcell {nulls : Nulls} {arm : Outcome RpcError Bson}
      (hread : (isNull nulls row >>= fun n => if n = true then pure Bson.null else arm) = .ok v)
      (hfilled : filled (array, row) = holds nulls row)
      (harm : arm = .ok v → typeName v ∈ cellTypes array) :
      (filled (array, row) = true → typeName v ∈ cellTypes array) ∧
        (filled (array, row) = false → v = .null) := by
    obtain ⟨null, hnull, hread⟩ := bind_eq_ok_iff.mp hread
    rw [hfilled, holds_of_isNull hnull]
    cases null with
    | true =>
      cases hread
      exact ⟨fun h => absurd h (by decide), fun _ => rfl⟩
    | false => exact ⟨fun _ => harm hread, fun h => absurd h (by decide)⟩
  cases array with
  | null len =>
    cases h
    exact ⟨fun h => absurd h Bool.false_ne_true, fun _ => rfl⟩
  | scalar ty nulls values =>
    apply hcell h rfl
    intro harm
    obtain ⟨x, -, hx⟩ := bind_eq_ok_iff.mp harm
    exact typeName_of_scalarValue hx
  | list nulls offsets values =>
    apply hcell h rfl
    intro harm
    obtain ⟨rows, -, harm⟩ := bind_eq_ok_iff.mp harm
    obtain ⟨out, -, harm⟩ := bind_eq_ok_iff.mp harm
    cases harm
    exact .head _
  | struct len nulls columns =>
    apply hcell h rfl
    intro harm
    obtain ⟨doc, -, harm⟩ := bind_eq_ok_iff.mp harm
    cases harm
    exact .head _
  | map nulls offsets keys values =>
    rw [ReadsAs, valueAt_map] at h
    apply hcell h rfl
    intro harm
    obtain ⟨rows, -, harm⟩ := bind_eq_ok_iff.mp harm
    obtain ⟨doc, -, harm⟩ := bind_eq_ok_iff.mp harm
    cases harm
    exact .head _
  | other debug len nulls =>
    apply hcell h rfl
    intro harm
    cases harm

/-- The values that are projected as their bare text. -/
inductive Bare : Bson → String → Prop
  | boolean (b : Bool) : Bare (.boolean b) (if b then "true" else "false")
  | integer {v : Bson} {n : ℤ} (h : integerValue v = some n) : Bare v (toString n)
  | string (s : String) : Bare (.string s) s

theorem Bare.coerce {v : Bson} {text : String} (h : Bare v text) {mode : Coerce}
    (hmode : mode ≠ .json) : (coerce crates v mode : Outcome ε String) = .ok text := by
  cases h with
  | boolean b =>
    cases mode with
    | json => exact absurd rfl hmode
    | _ => rfl
  | integer h =>
    cases v with
    | int32 i | int64 i =>
      cases h
      cases mode with
      | json => exact absurd rfl hmode
      | _ => rfl
    | _ => cases h
  | string =>
    cases mode with
    | json => exact absurd rfl hmode
    | _ => rfl

theorem toInt_toInt32 {x : UInt32} (h : x.toNat < 2 ^ 31) : x.toInt32.toInt = x.toNat := by
  apply BitVec.toInt_eq_toNat_of_lt
  change 2 * x.toNat < 2 ^ 32
  omega

theorem toInt_toInt64 {x : UInt64} (h : x.toNat < 2 ^ 63) : x.toInt64.toInt = x.toNat := by
  apply BitVec.toInt_eq_toNat_of_lt
  change 2 * x.toNat < 2 ^ 64
  omega

theorem bare_of_scalarValue {ty : ScalarType} {x : ty.Value} {v : Bson} {text : String}
    (h : (scalarValue crates floats ty x : Outcome ε Bson) = .ok v)
    (htext : exactText ty x = some text) : Bare v text := by
  cases ty with
  | boolean =>
    cases h
    cases htext
    exact .boolean x
  | int8 =>
    cases h
    cases htext
    exact .integer (congrArg some (Int8.toInt_toInt32 x))
  | int16 =>
    cases h
    cases htext
    exact .integer (congrArg some (Int16.toInt_toInt32 x))
  | int32 | int64 =>
    cases h
    cases htext
    exact .integer rfl
  | uint8 =>
    cases h
    cases htext
    have hlt := x.toNat_lt
    rw [← UInt8.toNat_toUInt32] at hlt ⊢
    exact .integer (congrArg some (toInt_toInt32 (by omega)))
  | uint16 =>
    cases h
    cases htext
    have hlt := x.toNat_lt
    rw [← UInt16.toNat_toUInt32] at hlt ⊢
    exact .integer (congrArg some (toInt_toInt32 (by omega)))
  | uint32 =>
    cases h
    cases htext
    have hlt := x.toNat_lt
    rw [← UInt32.toNat_toUInt64] at hlt ⊢
    exact .integer (congrArg some (toInt_toInt64 (by omega)))
  | uint64 =>
    cases h
    have hvalue := @integerValue_intFromU64 floats x
    rw [exactText] at htext
    split at htext
    · next hx =>
      rw [if_pos hx] at hvalue
      cases htext
      exact .integer hvalue
    · cases htext
  | utf8 | largeUtf8 =>
    cases h
    cases htext
    exact .string _
  | _ => cases htext

/-- Types survive encoding: under a path that leads to a cell, the type is null exactly if the
cell is empty and one of the array's otherwise, and a truth value, a whole number or a text is
projected as it is in every mode but JSON. -/
theorem encoded_cells_typed (crates : Crates) (floats : Floats) (hinsert : InsertReplaces crates)
    (hget : GetFinds crates) (col : ArrayRef) (row : ℕ) (T : Target) (b : Bytes T)
    (hencode : encodeDocument crates floats col row = .ok (some b.data))
    (hvalid : validate b = .ok ())
    (hback : ∀ doc, valueAt crates floats col row = .ok (.document doc) →
      crates.fromReader b.data = .ok doc) (path : String) (steps : List PathStep)
    (hsteps : List.Forall₂ (PathStep.SpelledBy T) steps (segments path)) (cell : Cell)
    (hcell : follow (cellChild crates floats) (col, row) steps = some cell) :
    (∃ name, typeOf crates b (some path) = .ok (some name) ∧
      (filled cell = false ↔ name = "null") ∧ (filled cell = true → name ∈ cellTypes cell.1)) ∧
    ∀ ty nulls values x text, cell.1 = .scalar ty nulls values → HoldsAt nulls values cell.2 x →
      exactText ty x = some text →
      ∀ mode, mode ≠ .json → field crates b path mode = .ok (some text) := by
  obtain ⟨doc, hread, hdoc⟩ := decode_of_encoded hencode hvalid hback
  obtain ⟨v, hv, hnav⟩ := navigate_of_follow hinsert hget hread hsteps hcell
  obtain ⟨htype, hnull⟩ := typeName_of_readsAs hv
  constructor
  · refine ⟨typeName v, ?_, ⟨?_, ?_⟩, htype⟩
    · rw [typeOf_of_decode hdoc, hnav, Option.map_some]
    · intro hempty
      rw [hnull hempty]
      rfl
    · intro hname
      by_contra hfilled
      have hmem := htype (Bool.eq_true_of_not_eq_false hfilled)
      rw [hname] at hmem
      exact null_notMem_cellTypes _ hmem
  · intro ty nulls values x text hscalar hholds htext mode hmode
    obtain ⟨array, row'⟩ := cell
    cases hscalar
    obtain ⟨null, hnull', hv⟩ := bind_eq_ok_iff.mp hv
    rw [isNull_of_isValid hholds.1] at hnull'
    cases hnull'
    obtain ⟨x', hx', hv⟩ := bind_eq_ok_iff.mp hv
    rw [hholds.element] at hx'
    cases hx'
    rw [field_of_decode hdoc, hnav]
    dsimp only
    rw [(bare_of_scalarValue hv htext).coerce hmode]
    rfl

theorem encoded_cells_typed_integerStruct :
    (∃ name, typeOf integerCrates integerBytes (some "a") = .ok (some name) ∧
      (filled (.scalar .int32 none [5], 0) = false ↔ name = "null") ∧
      (filled (.scalar .int32 none [5], 0) = true → name ∈ ["int"])) ∧
    ∀ mode, mode ≠ .json → field integerCrates integerBytes "a" mode = .ok (some "5") := by
  obtain ⟨htype, htext⟩ := encoded_cells_typed integerCrates noFloats (fun _ _ _ => rfl)
    (fun _ _ => rfl) integerStruct 0 .bits64 integerBytes encodeDocument_integerCrates
    (by decide +kernel) fromReader_integerCrates "a" [.key "a"] (.cons rfl .nil)
    (.scalar .int32 none [5], 0) rfl
  exact ⟨htype, htext .int32 none [5] 5 "5" rfl ⟨isValid_none 0, rfl⟩ rfl⟩

end VgiBson.EncodedTypes
