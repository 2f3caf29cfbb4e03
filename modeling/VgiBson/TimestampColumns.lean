import VgiBson.EncodedDocuments
import VgiBson.ProjectedKeys

/-! # Timestamp columns

Timestamps count units of a second as exact instants, and are encoded in whole milliseconds. The
encoder truncates where the renderer of dates rounds down. -/

namespace VgiBson.TimestampColumns

open MachineBytes CursorWalks StructuralValidator BsonGrammar BsonValues BsonEncoding ArrowColumns
  DocumentDecoding CrateAssumptions LengthEquations ColumnEncoding EncodedDocuments CivilDates
  ProlepticCalendar DateTimeText DateRendering FieldProjection DottedPaths ProjectedKeys

variable {T : Target} {crates : Crates}

/-- The nanoseconds in one unit. -/
def nanosPer : TimeUnit → ℤ
  | .second => 1000000000
  | .millisecond => 1000000
  | .microsecond => 1000
  | .nanosecond => 1

/-- The instant of a raw value, in nanoseconds. -/
def instantOf (unit : TimeUnit) (raw : Int64) : ℤ := raw.toInt * nanosPer unit

/-- `m` milliseconds are the last ones not after the instant. -/
def IsFloor (m instant : ℤ) : Prop := m * 1000000 ≤ instant ∧ instant < (m + 1) * 1000000

theorem isFloor_iff {m instant : ℤ} : IsFloor m instant ↔ m = instant / 1000000 := by
  rw [IsFloor]
  omega

/-- The millisecond below the instant is an `i64`. -/
def FloorFits (instant : ℤ) : Prop :=
  -(2 ^ 63) ≤ instant / 1000000 ∧ instant / 1000000 < 2 ^ 63

/-- The conversion drops what is left of a millisecond. -/
theorem toInt_timestampMillis {unit : TimeUnit} {raw : Int64}
    (hfits : FloorFits (instantOf unit raw)) :
    (timestampMillis unit raw).toInt = (instantOf unit raw).tdiv 1000000 := by
  obtain ⟨hlo, hhi⟩ := hfits
  cases unit with
  | second =>
    simp only [instantOf, nanosPer] at hlo hhi
    have hthousand : (1000 : Int64).toInt = 1000 := rfl
    have hinstant : instantOf .second raw = raw.toInt * 1000 * 1000000 := by
      rw [instantOf, nanosPer]
      ring
    rw [hinstant, Int.mul_tdiv_cancel _ (by decide), timestampMillis, toInt_saturatingMul,
      hthousand]
    · rw [hthousand]
      omega
    · rw [hthousand]
      omega
  | millisecond => exact (Int.mul_tdiv_cancel _ (by decide)).symm
  | microsecond =>
    have hinstant : instantOf .microsecond raw = 1000 * raw.toInt := Int.mul_comm _ _
    have hmillion : (1000000 : ℤ) = 1000 * 1000 := rfl
    rw [hinstant, hmillion, Int.mul_tdiv_mul_of_pos _ _ (by decide)]
    exact Int64.toInt_div_of_ne_right raw 1000 (by decide)
  | nanosecond =>
    have hinstant : instantOf .nanosecond raw = raw.toInt := Int.mul_one _
    rw [hinstant]
    exact Int64.toInt_div_of_ne_right raw 1000000 (by decide)

/-- One instant in two units has one encoding. -/
theorem timestampMillis_congr {unit unit' : TimeUnit} {raw raw' : Int64}
    (hfits : FloorFits (instantOf unit raw)) (h : instantOf unit raw = instantOf unit' raw') :
    timestampMillis unit raw = timestampMillis unit' raw' := by
  rw [← Int64.toInt_inj, toInt_timestampMillis hfits, toInt_timestampMillis (h ▸ hfits), h]

/-- Truncation rounds down after 1970 and on whole milliseconds. -/
theorem isFloor_timestampMillis_iff {unit : TimeUnit} {raw : Int64}
    (hfits : FloorFits (instantOf unit raw)) :
    IsFloor (timestampMillis unit raw).toInt (instantOf unit raw) ↔
      0 ≤ instantOf unit raw ∨ 1000000 ∣ instantOf unit raw := by
  have hsign : Int.sign 1000000 = 1 := rfl
  rw [isFloor_iff, toInt_timestampMillis hfits, Int.tdiv_eq_ediv, hsign]
  split
  · next h => simp [h]
  · next h =>
    simp only [h, iff_false]
    omega

/-- One row of a struct with a timestamp under `t`. -/
def timestampStruct (unit : TimeUnit) (raw : Int64) : ArrayRef :=
  .struct 1 none [("t", .scalar (.timestamp unit) none [raw])]

/-- The document that the row is encoded to. -/
def dateDocument (millis : Int64) : Document := [("t", .dateTime millis)]

/-- `Document::from_reader` gives back what `Document::to_writer` wrote. -/
def RoundTrips (crates : Crates) (doc : Document) : Prop :=
  ∀ out, crates.toWriter doc = .ok out → crates.fromReader out = .ok doc

theorem valueAt_timestampStruct (hinsert : InsertReplaces crates) (floats : Floats)
    (unit : TimeUnit) (raw : Int64) : valueAt crates floats (timestampStruct unit raw) 0 =
      .ok (.document (dateDocument (timestampMillis unit raw))) :=
  congrArg (fun doc => Except.ok (Bson.document doc)) (hinsert [] "t" _)

/-- What is encoded from the row decodes to its document. -/
theorem decode_timestampStruct (hinsert : InsertReplaces crates) (hwrite : WritesFormat crates)
    {floats : Floats} {unit : TimeUnit} {raw : Int64} {b : Bytes T}
    (hround : RoundTrips crates (dateDocument (timestampMillis unit raw)))
    (hb : encodeDocument crates floats (timestampStruct unit raw) 0 = .ok (some b.data)) :
    decodeDocument crates b = .ok (dateDocument (timestampMillis unit raw)) := by
  obtain ⟨doc, hv, hout⟩ := encodeDocument_eq_ok hb
  rw [valueAt_timestampStruct hinsert] at hv
  cases hv
  obtain ⟨-, hbytes, hlen⟩ := hwrite _ _ hout
  have hkeys : ∀ k ∈ ["t"], NulFree k := by decide
  have hs : Storable (.document (dateDocument (timestampMillis unit raw))) :=
    ⟨⟨List.nodup_singleton _, hkeys⟩, trivial, trivial⟩
  have hlevels : levels (.document (dateDocument (timestampMillis unit raw))) ≤ maxNesting + 1 := by
    simp [dateDocument, levels, levelsFields]
  have hvalid := (validate_documentBytes_iff hbytes hs hlen).mpr hlevels
  exact (decodeDocument_eq_ok_iff crates).mpr ⟨precheck_of_validate hvalid, hround _ hout⟩

/-- The rendered text is that of the encoded milliseconds. -/
theorem field_timestampStruct (hinsert : InsertReplaces crates) (hget : GetFinds crates)
    (hwrite : WritesFormat crates) {floats : Floats} {unit : TimeUnit} {raw : Int64} {b : Bytes T}
    (hround : RoundTrips crates (dateDocument (timestampMillis unit raw)))
    (hb : encodeDocument crates floats (timestampStruct unit raw) 0 = .ok (some b.data)) :
    ∃ text ms, field crates b "t" .dateTime = .ok (some text) ∧
      Renders text ms (timestampMillis unit raw).toInt := by
  obtain ⟨text, htext, hrenders⟩ := epochMillisToRfc3339_spec (ε := DecodeError)
    (timestampMillis unit raw).le_toInt (timestampMillis unit raw).toInt_lt
  have hnav : navigate crates T (.document (dateDocument (timestampMillis unit raw))) "t" =
      some (.dateTime (timestampMillis unit raw)) := navigate_key hget (by decide) rfl
  refine ⟨text, _, ?_, hrenders⟩
  rw [field_of_decode (decode_timestampStruct hinsert hwrite hround hb), hnav]
  show some <$> epochMillisToRfc3339 _ = _
  rw [htext]
  rfl

/-- The rendered text denotes the encoded milliseconds and nothing else. -/
theorem rendered_iff (hinsert : InsertReplaces crates) (hget : GetFinds crates)
    (hwrite : WritesFormat crates) {floats : Floats} {unit : TimeUnit} {raw : Int64} {b : Bytes T}
    (hround : RoundTrips crates (dateDocument (timestampMillis unit raw)))
    (hb : encodeDocument crates floats (timestampStruct unit raw) 0 = .ok (some b.data))
    (P : ℤ → Prop) :
    (∃ text c, field crates b "t" .dateTime = .ok (some text) ∧ readDateTime text = some c ∧
      P c.instant) ↔ P (timestampMillis unit raw).toInt := by
  obtain ⟨text, ms, htext, c, hread, hinstant, -⟩ :=
    field_timestampStruct hinsert hget hwrite hround hb
  constructor
  · intro h
    obtain ⟨text', c', htext', hread', hP⟩ := h
    rw [htext] at htext'
    obtain rfl := Option.some.inj (Except.ok.inj htext')
    rw [hread] at hread'
    obtain rfl := Option.some.inj hread'
    exact hinstant ▸ hP
  · intro h
    exact ⟨text, c, htext, hread, hinstant ▸ h⟩

/-- When a timestamp is encoded as the millisecond below it: from 1970 on, and on whole
milliseconds. The rendered text agrees, and one instant in two units has one encoding always. -/
theorem timestamp_floors_iff (crates : Crates) (floats : Floats) (hinsert : InsertReplaces crates)
    (hget : GetFinds crates) (hwrite : WritesFormat crates) (unit : TimeUnit) (raw : Int64)
    (hfits : FloorFits (instantOf unit raw)) :
    (IsFloor (timestampMillis unit raw).toInt (instantOf unit raw) ↔
      0 ≤ instantOf unit raw ∨ 1000000 ∣ instantOf unit raw) ∧
    (∀ b : Bytes T, RoundTrips crates (dateDocument (timestampMillis unit raw)) →
      encodeDocument crates floats (timestampStruct unit raw) 0 = .ok (some b.data) →
      ((∃ text c, field crates b "t" .dateTime = .ok (some text) ∧ readDateTime text = some c ∧
        IsFloor c.instant (instantOf unit raw)) ↔
        0 ≤ instantOf unit raw ∨ 1000000 ∣ instantOf unit raw)) ∧
    ∀ unit' raw', instantOf unit' raw' = instantOf unit raw →
      timestampMillis unit' raw' = timestampMillis unit raw := by
  have hfloor := isFloor_timestampMillis_iff hfits
  refine ⟨hfloor, ?_, ?_⟩
  · intro b hround hb
    exact (rendered_iff hinsert hget hwrite hround hb fun m => IsFloor m (instantOf unit raw)).trans
      hfloor
  · intro unit' raw' h
    exact (timestampMillis_congr hfits h.symm).symm

theorem roundTrips_knownCrates (doc : Document) : RoundTrips (knownCrates doc) doc := by
  intro out hout
  obtain ⟨-, rfl, -⟩ := writesFormat_formatCrates doc out hout
  exact if_pos rfl

/-- The bytes of a document with the first millisecond. -/
def firstMillisecond : Bytes .bits64 := ⟨documentBytes (dateDocument 1), by decide⟩

theorem encode_firstMillisecond :
    encodeDocument (knownCrates (dateDocument 1)) noFloats (timestampStruct .microsecond 1500) 0 =
      .ok (some firstMillisecond.data) := by
  have hinsert : InsertReplaces (knownCrates (dateDocument 1)) := insertReplaces_formatCrates
  have hv := valueAt_timestampStruct hinsert noFloats .microsecond 1500
  exact encodeDocument_of_writes rfl hv
    (if_pos ⟨⟨by decide, trivial, trivial⟩, by decide⟩)

theorem timestamp_floors_microseconds :
    (IsFloor (timestampMillis .microsecond 1500).toInt (instantOf .microsecond 1500) ↔
      0 ≤ instantOf .microsecond 1500 ∨ 1000000 ∣ instantOf .microsecond 1500) ∧
    ((∃ text c, field (knownCrates (dateDocument 1)) firstMillisecond "t" .dateTime =
        .ok (some text) ∧ readDateTime text = some c ∧
        IsFloor c.instant (instantOf .microsecond 1500)) ↔
      0 ≤ instantOf .microsecond 1500 ∨ 1000000 ∣ instantOf .microsecond 1500) ∧
    ∀ unit' raw', instantOf unit' raw' = instantOf .microsecond 1500 →
      timestampMillis unit' raw' = timestampMillis .microsecond 1500 := by
  have h := timestamp_floors_iff (T := .bits64) (knownCrates (dateDocument 1)) noFloats
    insertReplaces_formatCrates (getFinds_knownCrates _) writesFormat_formatCrates .microsecond 1500
    ⟨by decide, by decide⟩
  exact ⟨h.1, h.2.1 firstMillisecond (roundTrips_knownCrates (dateDocument 1))
    encode_firstMillisecond, h.2.2⟩

/-- The last microsecond of 1969 is moved into 1970. -/
theorem timestamp_moved_forward : FloorFits (instantOf .microsecond (-1)) ∧
    ¬ IsFloor (timestampMillis .microsecond (-1)).toInt (instantOf .microsecond (-1)) ∧
    (epochMillisToRfc3339 (timestampMillis .microsecond (-1)).toInt : Outcome Empty String) =
      .ok "1970-01-01T00:00:00Z" :=
  ⟨⟨by decide, by decide⟩, fun h => absurd h.1 (by decide), by decide⟩

end VgiBson.TimestampColumns
