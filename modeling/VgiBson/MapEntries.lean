import Mathlib.Data.Set.Function
import VgiBson.DecimalColumns
import VgiBson.TimestampColumns

/-! # The entries of a map

A map is encoded by inserting its values one after another, each under the text of its key. Nothing
is lost as long as the texts differ, and a key type that loses digits can give two keys one text. -/

namespace VgiBson.MapEntries

open MachineBytes CursorWalks BsonValues ArrowColumns DocumentDecoding CrateAssumptions
  ColumnEncoding EncodedDocuments InsertionOrder Decimal128Format DecimalColumns TimestampColumns

variable {crates : Crates} {floats : Floats}

/-- The number of an integer value. -/
def integerValue : Bson → Option ℤ
  | .int32 i => some i.toInt
  | .int64 i => some i.toInt
  | _ => none

/-- An unsigned number is encoded as itself up to the greatest `i64`. -/
theorem integerValue_intFromU64 (x : UInt64) :
    integerValue (intFromU64 floats x) = if x.toNat < 2 ^ 63 then some (x.toNat : ℤ) else none := by
  simp only [intFromU64]
  split
  · next hx =>
    rw [if_pos (by omega)]
    exact congrArg some (Int32.toInt_ofNat_of_lt hx)
  · split
    · next hx => exact congrArg some (Int64.toInt_ofNat_of_lt hx)
    · rfl

end VgiBson.MapEntries
