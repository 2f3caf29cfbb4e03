import VgiBson.CrateAssumptions
import VgiBson.HexText

/-! # Object ids

Twelve bytes, their text of twenty-four hexadecimal digits, and the seconds in their first four
bytes. The id type itself is the value library's. -/

namespace VgiBson.ObjectIds

open MachineBytes StructuralValidator BsonValues DocumentDecoding CrateAssumptions HexText

variable {T : Target}

abbrev ObjectId := Vector UInt8 12

/-- The functions of the id type that are used besides its text. -/
structure OidCrate where
  parseStr : String → Option ObjectId
  timestampMillis : ObjectId → Int64

variable (crates : Crates) (oids : OidCrate)

/-- `<[u8; 12]>::try_from(bytes)`. -/
def tryInto (bytes : List UInt8) : Option ObjectId :=
  if h : bytes.toArray.size = 12 then some ⟨bytes.toArray, h⟩ else none

/-- `bson.objectid_hex(blob)`: 12 raw bytes to 24-char lowercase hex. -/
def objectidHex (bytes : Bytes T) : Except DecodeError String :=
  match tryInto bytes.data with
  | some arr => .ok (crates.toHex arr)
  | none => .error .invalidType

/-- `bson.objectid_from_hex(hex)`: 24-char hex to 12 raw bytes. -/
def objectidFromHex (hex : String) : Except DecodeError (List UInt8) :=
  match oids.parseStr (trim hex) with
  | some oid => .ok oid.toList
  | none => .error .invalidType

/-- Parse an id from either a 24-char hex text or a 12-byte slice. -/
def parseObjectidAny (hex : Option String) (bytes : Option (Bytes T)) : Option ObjectId :=
  match hex with
  | some h => oids.parseStr (trim h)
  | none =>
    match bytes with
    | some b => tryInto b.data
    | none => none

/-- The embedded creation timestamp of an id, in epoch milliseconds. -/
def objectidEpochMillis (oid : ObjectId) : Int64 := oids.timestampMillis oid

/-- `ObjectId::to_hex` writes lowercase digits. -/
def WritesHex (crates : Crates) : Prop :=
  ∀ oid, crates.toHex oid = String.ofList (encode oid.toList)

/-- `ObjectId::parse_str` reads twelve bytes from digits of either case. -/
def ParsesHex (oids : OidCrate) : Prop :=
  ∀ s, oids.parseStr s = (decode s.toList).bind tryInto

/-- The first four bytes of an id as a number. -/
def secondsOf (oid : ObjectId) : ℕ := ofBytes (oid.toList.take 4)

/-- `ObjectId::timestamp` is the first four bytes, in seconds. -/
def ReadsSeconds (oids : OidCrate) : Prop :=
  ∀ oid, (oids.timestampMillis oid).toInt = 1000 * secondsOf oid

theorem tryInto_eq_some_iff {bytes : List UInt8} {oid : ObjectId} :
    tryInto bytes = some oid ↔ oid.toList = bytes := by
  rw [tryInto]
  constructor
  · intro h
    split at h
    · cases h
      rfl
    · cases h
  · intro h
    subst h
    rw [dif_pos (by simp)]
    congr

theorem exists_tryInto_iff {bytes : List UInt8} :
    (∃ oid, tryInto bytes = some oid) ↔ bytes.length = 12 := by
  simp only [tryInto_eq_some_iff]
  constructor
  · intro h
    obtain ⟨oid, rfl⟩ := h
    exact oid.length_toList
  · intro h
    exact ⟨⟨bytes.toArray, h⟩, rfl⟩

variable {crates oids}

theorem objectidHex_eq_ok_iff {b : Bytes T} {s : String} : objectidHex crates b = .ok s ↔
    ∃ oid : ObjectId, oid.toList = b.data ∧ crates.toHex oid = s := by
  rw [objectidHex]
  simp only [← tryInto_eq_some_iff]
  cases tryInto b.data <;> simp

theorem objectidFromHex_eq_ok_iff (hparses : ParsesHex oids) {s : String} {data : List UInt8} :
    objectidFromHex oids s = .ok data ↔
      data.length = 12 ∧ toAsciiLowercase (trim s) = String.ofList (encode data) := by
  have hdecode : toAsciiLowercase (trim s) = String.ofList (encode data) ↔
      decode (trim s).toList = some data := by
    rw [decode_eq_some_iff, toAsciiLowercase, String.ofList_inj]
  rw [hdecode, objectidFromHex, hparses]
  constructor
  · intro h
    cases hbytes : decode (trim s).toList with
    | none =>
      rw [hbytes] at h
      cases h
    | some bytes =>
      rw [hbytes, Option.bind_some] at h
      cases hoid : tryInto bytes with
      | none =>
        rw [hoid] at h
        cases h
      | some oid =>
        rw [hoid] at h
        obtain rfl := Except.ok.inj h
        rw [tryInto_eq_some_iff] at hoid
        exact ⟨oid.length_toList, congrArg some hoid.symm⟩
  · intro h
    obtain ⟨hlen, hbytes⟩ := h
    obtain ⟨oid, hoid⟩ := exists_tryInto_iff.mpr hlen
    rw [hbytes, Option.bind_some, hoid]
    exact congrArg Except.ok (tryInto_eq_some_iff.mp hoid)

theorem objectidFromHex_encode (hparses : ParsesHex oids) {data : List UInt8}
    (h : data.length = 12) : objectidFromHex oids (String.ofList (encode data)) = .ok data := by
  rw [objectidFromHex_eq_ok_iff hparses, toAsciiLowercase,
    trim_of_forall (forall_mem_encode digit_not_whitespace data), String.toList_ofList,
    map_toLower_encode]
  exact ⟨h, rfl⟩

/-- The two forms of an id are one: bytes survive their text, a text survives its bytes up to
white space around it and its case, and both directions fail on everything else. -/
theorem objectid_text_round_trip (crates : Crates) (oids : OidCrate) (hwrites : WritesHex crates)
    (hparses : ParsesHex oids) (T : Target) :
    (∀ (b : Bytes T) s, objectidHex crates b = .ok s → objectidFromHex oids s = .ok b.data) ∧
    (∀ s (b : Bytes T), objectidFromHex oids s = .ok b.data →
      objectidHex crates b = .ok (toAsciiLowercase (trim s))) ∧
    (∀ b : Bytes T, (∃ s, objectidHex crates b = .ok s) ↔ b.len = 12) ∧
    ∀ s, (∃ data, objectidFromHex oids s = .ok data) ↔
      (trim s).toList.length = 24 ∧ ∀ c ∈ (trim s).toList, ∃ x, value c = some x := by
  refine ⟨?_, ?_, ?_, ?_⟩
  · intro b s h
    obtain ⟨oid, hoid, rfl⟩ := objectidHex_eq_ok_iff.mp h
    rw [hwrites, hoid]
    exact objectidFromHex_encode hparses (hoid ▸ oid.length_toList)
  · intro s b h
    obtain ⟨hlen, htext⟩ := (objectidFromHex_eq_ok_iff hparses).mp h
    obtain ⟨oid, hoid⟩ := exists_tryInto_iff.mpr hlen
    rw [tryInto_eq_some_iff] at hoid
    exact objectidHex_eq_ok_iff.mpr ⟨oid, hoid, by rw [hwrites, hoid, htext]⟩
  · intro b
    rw [Bytes.len, ← exists_tryInto_iff]
    simp only [objectidHex_eq_ok_iff, tryInto_eq_some_iff]
    constructor
    · intro h
      obtain ⟨_, oid, hoid, -⟩ := h
      exact ⟨oid, hoid⟩
    · intro h
      obtain ⟨oid, hoid⟩ := h
      exact ⟨_, oid, hoid, rfl⟩
  · intro s
    refine Iff.trans ?_ (@exists_decode_iff (trim s).toList 12)
    simp only [objectidFromHex_eq_ok_iff hparses, toAsciiLowercase, String.ofList_inj,
      ← decode_eq_some_iff]
    constructor
    · intro h
      obtain ⟨data, hlen, hdata⟩ := h
      exact ⟨data, hdata, hlen⟩
    · intro h
      obtain ⟨data, hdata, hlen⟩ := h
      exact ⟨data, hlen, hdata⟩

def hexOids : OidCrate where
  parseStr s := (decode s.toList).bind tryInto
  timestampMillis oid := Int64.ofNat (1000 * secondsOf oid)

noncomputable def hexCrates : Crates :=
  { formatCrates with toHex := fun oid => String.ofList (encode oid.toList) }

theorem readsSeconds_hexOids : ReadsSeconds hexOids := by
  intro oid
  have hlt := ofBytes_lt (oid.toList.take 4)
  have hlen : (oid.toList.take 4).length = 4 := by simp
  rw [hlen] at hlt
  have hsmall : 1000 * secondsOf oid < 2 ^ 63 := by
    rw [secondsOf]
    omega
  exact Int64.toInt_ofNat_of_lt hsmall

def firstId : Bytes .bits64 :=
  ⟨[0x54, 0x75, 0x9e, 0xb3, 0xc0, 0x90, 0xd8, 0x34, 0x94, 0xe2, 0xd8, 0x04], by decide⟩

theorem objectid_text_round_trip_firstId :
    objectidFromHex hexOids "54759eb3c090d83494e2d804" = .ok firstId.data :=
  (objectid_text_round_trip hexCrates hexOids (fun _ => rfl) (fun _ => rfl) .bits64).1 firstId
    "54759eb3c090d83494e2d804" rfl

end VgiBson.ObjectIds
