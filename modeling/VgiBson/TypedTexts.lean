import VgiBson.ObjectIds
import VgiBson.ProjectedKeys

/-! # Texts of typed projections

A projection with a type renders a value of that type as a bare text, and the text can be read back
as what the type keeps of the value. -/

namespace VgiBson.TypedTexts

open MachineBytes CursorWalks StructuralValidator BsonValues DocumentDecoding FieldProjection
  CivilDates DateTimeText ProlepticCalendar DateRendering HexText ObjectIds ProjectedKeys

variable {crates : Crates} {ε : Type}

/-- What a text can say. -/
inductive Content where
  | bytes (data : List UInt8)
  | instant (millis : ℤ)
  deriving DecidableEq

/-- What the type keeps of a value: nothing of a value of another type, the data of a binary
without its subtype, and the seconds of a timestamp. -/
def kept : Coerce → Bson → Option Content
  | .objectId, .objectId oid => some (.bytes oid.toList)
  | .uuid, .binary .uuid data => some (.bytes data)
  | .blob, .binary _ data => some (.bytes data)
  | .timestamp, .timestamp time _ => some (.instant (time.toNat * 1000))
  | .dateTime, .dateTime millis => some (.instant millis.toInt)
  | _, _ => none

/-- The groups of a text between hyphens, without them. -/
def ungrouped (text : String) : List Char := (text.toList.splitOn '-').flatten

def readBack : Coerce → String → Option Content
  | .objectId, text => (decode text.toList).map .bytes
  | .uuid, text => (decode (ungrouped text)).map .bytes
  | .blob, text => (decode text.toList).map .bytes
  | .timestamp, text => (readDateTime text).map fun c => .instant c.instant
  | .dateTime, text => (readDateTime text).map fun c => .instant c.instant
  | _, _ => none

theorem digit_ne_hyphen : ∀ n < 16, digit n ≠ '-' := by decide

theorem hyphen_notMem_encode (bytes : List UInt8) : '-' ∉ encode bytes := fun h =>
  forall_mem_encode (p := (· ≠ '-')) digit_ne_hyphen bytes '-' h rfl

theorem uuidString_eq (hhex : EncodesHex crates) (bytes : List UInt8) :
    (uuidString crates bytes : Outcome ε String) = .ok (String.ofList
      (if bytes.length = 16 then ['-'].intercalate (groupLengths.splitLengths (encode bytes))
      else encode bytes)) :=
  uuidString_of_ascii (hhex bytes) (length_encode bytes) (forall_mem_encode digit_ascii bytes)

theorem flatten_groups {bytes : List UInt8} (hlen : bytes.length = 16) :
    (groupLengths.splitLengths (encode bytes)).flatten = encode bytes := by
  apply List.flatten_splitLengths
  rw [length_encode, hlen]
  decide

/-- The groups are found again between the hyphens. -/
theorem splitOn_groups {bytes : List UInt8} (hlen : bytes.length = 16) :
    (['-'].intercalate (groupLengths.splitLengths (encode bytes))).splitOn '-' =
      groupLengths.splitLengths (encode bytes) := by
  apply List.splitOn_intercalate
  · intro group hgroup hhyphen
    have hmem := List.mem_flatten.mpr ⟨group, hgroup, hhyphen⟩
    rw [flatten_groups hlen] at hmem
    exact hyphen_notMem_encode bytes hmem
  · exact List.cons_ne_nil _ _

theorem ungrouped_uuidString (bytes : List UInt8) :
    ungrouped (String.ofList (if bytes.length = 16 then
      ['-'].intercalate (groupLengths.splitLengths (encode bytes)) else encode bytes)) =
      encode bytes := by
  rw [ungrouped, String.toList_ofList]
  split
  · next hlen => rw [splitOn_groups hlen, flatten_groups hlen]
  · rw [List.splitOn_eq_singleton (hyphen_notMem_encode bytes), List.flatten_singleton]

theorem readBack_dateTime (dt : Int64) : ∃ text,
    (epochMillisToRfc3339 dt.toInt : Outcome ε String) = .ok text ∧
      (readDateTime text).map (fun c => Content.instant c.instant) = some (.instant dt.toInt) := by
  obtain ⟨text, htext, c, hread, hinstant, -⟩ :=
    epochMillisToRfc3339_spec (ε := ε) dt.le_toInt dt.toInt_lt
  refine ⟨text, htext, ?_⟩
  rw [hread, Option.map_some, hinstant]

theorem readBack_timestamp (time : UInt32) : ∃ text,
    (epochSecsToRfc3339 time.toNat : Outcome ε String) = .ok text ∧
      (readDateTime text).map (fun c => Content.instant c.instant) =
        some (.instant (time.toNat * 1000)) := by
  have hlt := time.toNat_lt
  obtain ⟨text, htext, c, hread, hinstant, -⟩ :=
    @epochSecsToRfc3339_spec ε time.toNat (by omega) (by omega)
  refine ⟨text, htext, ?_⟩
  rw [hread, Option.map_some, hinstant]

theorem decode_ofList_encode (bytes : List UInt8) :
    (decode (String.ofList (encode bytes)).toList).map Content.bytes = some (.bytes bytes) := by
  rw [String.toList_ofList, decode_encode, Option.map_some]

/-- A typed projection is read back from its text as what its type keeps of the value, and the
text of an identifier of sixteen bytes has groups of 8, 4, 4, 4 and 12 digits. -/
theorem typed_texts_read_back (crates : Crates) (hwrites : WritesHex crates)
    (hhex : EncodesHex crates) :
    (∀ mode leaf content, kept mode leaf = some content → ∃ text,
      (coerce crates leaf mode : Outcome DecodeError String) = .ok text ∧
        readBack mode text = some content) ∧
    ∀ bytes : List UInt8, bytes.length = 16 → ∃ text,
      (coerce crates (.binary .uuid bytes) .uuid : Outcome DecodeError String) = .ok text ∧
        (text.toList.splitOn '-').map List.length = [8, 4, 4, 4, 12] := by
  constructor
  · intro mode leaf content h
    cases mode with
    | objectId =>
      cases leaf with
      | objectId oid =>
        cases h
        exact ⟨_, rfl, hwrites oid ▸ decode_ofList_encode oid.toList⟩
      | _ => cases h
    | uuid =>
      cases leaf with
      | binary subtype bytes =>
        cases subtype with
        | uuid =>
          cases h
          refine ⟨_, uuidString_eq hhex bytes, ?_⟩
          rw [readBack, ungrouped_uuidString, decode_encode, Option.map_some]
        | _ => cases h
      | _ => cases h
    | timestamp =>
      cases leaf with
      | timestamp time increment =>
        cases h
        exact readBack_timestamp time
      | _ => cases h
    | dateTime =>
      cases leaf with
      | dateTime dt =>
        cases h
        exact readBack_dateTime dt
      | _ => cases h
    | blob =>
      cases leaf with
      | binary subtype bytes =>
        cases h
        exact ⟨_, rfl, hhex bytes ▸ decode_ofList_encode bytes⟩
      | _ => cases h
    | _ => cases h
  · intro bytes hlen
    refine ⟨_, uuidString_eq hhex bytes, ?_⟩
    have hdigits : groupLengths.sum ≤ (encode bytes).length := by
      rw [length_encode, hlen]
      decide
    rw [String.toList_ofList, if_pos hlen, splitOn_groups hlen]
    exact List.map_splitLengths_length _ _ hdigits

/-- A library that writes hexadecimal digits everywhere. -/
noncomputable def digitCrates : Crates :=
  { hexCrates with hexEncode := fun bytes => String.ofList (encode bytes) }

/-- The bytes of an identifier. -/
def uuidBytes : List UInt8 :=
  [0x12, 0x3E, 0x45, 0x67, 0xE8, 0x9B, 0x12, 0xD3, 0xA4, 0x56, 0x42, 0x66, 0x14, 0x17, 0x40, 0x00]

theorem typed_texts_read_back_uuidBytes :
    (∃ text, (coerce digitCrates (.binary .uuid uuidBytes) .uuid : Outcome DecodeError String) =
        .ok text ∧ readBack .uuid text = some (.bytes uuidBytes)) ∧
    ∃ text, (coerce digitCrates (.binary .uuid uuidBytes) .uuid : Outcome DecodeError String) =
        .ok text ∧ (text.toList.splitOn '-').map List.length = [8, 4, 4, 4, 12] := by
  obtain ⟨hback, hgroups⟩ := typed_texts_read_back digitCrates (fun _ => rfl) fun _ => rfl
  exact ⟨hback .uuid (.binary .uuid uuidBytes) (.bytes uuidBytes) rfl, hgroups uuidBytes rfl⟩

end VgiBson.TypedTexts
