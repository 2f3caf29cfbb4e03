import Mathlib.Data.List.SplitLengths
import VgiBson.DateRendering
import VgiBson.DottedPaths
import VgiBson.HexText
import VgiBson.LengthEquations

/-! # Projecting the reported keys

A key without a dot is a path of one segment and leads to its element, which every coercion renders.
A key with a dot is a longer path, along which nothing needs to be. -/

namespace VgiBson.ProjectedKeys

open MachineBytes CursorWalks StructuralValidator BsonGrammar BsonValues BsonEncoding
  DocumentDecoding CrateAssumptions LengthEquations CivilDates FieldProjection PathWalks
  DottedPaths DateRendering
open HexText (encode length_encode forall_mem_encode digit_ascii)

variable {T : Target} {ε : Type} {crates : Crates}

/-- `Document::keys` lists the keys in order. -/
def KeysInOrder (crates : Crates) : Prop := ∀ doc, crates.keys doc = doc.map Prod.fst

/-- `hex::encode` gives two ASCII characters for each byte. -/
def HexEncodes (crates : Crates) : Prop :=
  ∀ bytes, ∃ l : List Char, crates.hexEncode bytes = String.ofList l ∧
    l.length = 2 * bytes.length ∧ ∀ c ∈ l, c.toNat < 128

/-- `hex::encode` writes lowercase digits. -/
def EncodesHex (crates : Crates) : Prop :=
  ∀ bytes, crates.hexEncode bytes = String.ofList (encode bytes)

theorem EncodesHex.hexEncodes (h : EncodesHex crates) : HexEncodes crates := fun bytes =>
  ⟨encode bytes, h bytes, length_encode bytes, forall_mem_encode digit_ascii bytes⟩

/-- The lengths of the groups of an identifier. -/
def groupLengths : List ℕ := [8, 4, 4, 4, 12]

/-- Sixteen bytes are written in groups, and any others in one piece. -/
theorem uuidString_of_ascii {bytes : List UInt8} {l : List Char}
    (hl : crates.hexEncode bytes = String.ofList l) (hlen : l.length = 2 * bytes.length)
    (hascii : ∀ c ∈ l, c.toNat < 128) :
    (uuidString crates bytes : Outcome ε String) = .ok (String.ofList
      (if bytes.length = 16 then ['-'].intercalate (groupLengths.splitLengths l) else l)) := by
  by_cases hbytes : bytes.length = 16
  · have hrange (lo hi : ℕ) (hlo : lo ≤ hi) (hhi : hi ≤ 32) :
        (strRange (String.ofList l) lo hi : Outcome ε String) =
          .ok (String.ofList ((l.drop lo).take (hi - lo))) :=
      strRange_ascii hascii hlo (by omega)
    have hhyphen : "-" = String.ofList ['-'] := rfl
    rw [uuidString, if_neg (not_not.mpr hbytes), if_pos hbytes, hl]
    simp only [hrange 0 8 (by decide) (by decide), hrange 8 12 (by decide) (by decide),
      hrange 12 16 (by decide) (by decide), hrange 16 20 (by decide) (by decide),
      hrange 20 32 (by decide) (by decide), ok_bind, hhyphen, ← String.ofList_append]
    simp [groupLengths, List.intercalate, pure, Except.pure]
  · rw [uuidString, if_pos hbytes, if_neg hbytes, hl]
    rfl

theorem uuidString_total (hhex : HexEncodes crates) (bytes : List UInt8) :
    ∃ text, (uuidString crates bytes : Outcome ε String) = .ok text := by
  obtain ⟨l, hl, hlen, hascii⟩ := hhex bytes
  exact ⟨_, uuidString_of_ascii hl hlen hascii⟩

theorem infer_total (leaf : Bson) : ∃ text, (infer crates leaf : Outcome ε String) = .ok text := by
  cases leaf with
  | dateTime dt =>
    obtain ⟨text, htext, -⟩ := epochMillisToRfc3339_spec (ε := ε) dt.le_toInt dt.toInt_lt
    exact ⟨text, htext⟩
  | _ => exact ⟨_, rfl⟩

theorem coerce_total (hhex : HexEncodes crates) (leaf : Bson) (mode : Coerce) :
    ∃ text, (coerce crates leaf mode : Outcome ε String) = .ok text := by
  have hinfer := @infer_total ε crates leaf
  cases mode with
  | json => exact ⟨_, rfl⟩
  | infer => exact hinfer
  | objectId =>
    cases leaf with
    | objectId oid => exact ⟨_, rfl⟩
    | _ => exact hinfer
  | decimal => cases leaf <;> exact hinfer
  | uuid =>
    cases leaf with
    | binary subtype bytes =>
      cases subtype with
      | uuid => exact uuidString_total hhex bytes
      | _ => exact hinfer
    | _ => exact hinfer
  | timestamp =>
    cases leaf with
    | timestamp time increment =>
      have hlt := time.toNat_lt
      obtain ⟨text, htext, -⟩ :=
        @epochSecsToRfc3339_spec ε time.toNat (by omega) (by omega)
      exact ⟨text, htext⟩
    | _ => exact hinfer
  | dateTime => cases leaf <;> exact hinfer
  | blob =>
    cases leaf with
    | binary subtype bytes => exact ⟨_, rfl⟩
    | _ => exact hinfer

/-- A key without a dot is one segment. -/
theorem segments_of_no_dot {k : String} (h : '.' ∉ k.toList) : segments k = [k] := by
  rw [segments, List.splitOn_eq_singleton h, List.map_singleton, String.ofList_toList]

/-- The first segment of a key with a dot is not the key. -/
theorem segments_of_dot {k : String} (h : '.' ∈ k.toList) :
    ∃ seg rest, segments k = seg :: rest ∧ seg ≠ k := by
  obtain ⟨before, after, hk, hbefore⟩ := List.eq_append_cons_of_mem h
  refine ⟨String.ofList before, (after.splitOn '.').map String.ofList, ?_, ?_⟩
  · rw [segments, hk, List.splitOn_append_cons_self_of_not_mem hbefore, List.map_cons]
  · rintro rfl
    rw [String.toList_ofList] at h
    exact hbefore h

theorem find?_of_mem_keys {doc : Document} {k : String} (h : k ∈ doc.map Prod.fst) :
    ∃ v, doc.find? (·.1 = k) = some (k, v) := by
  obtain ⟨f, hf, hk⟩ := List.mem_map.mp h
  have hsome : (doc.find? (·.1 = k)).isSome :=
    List.find?_isSome.mpr ⟨f, hf, decide_eq_true hk⟩
  obtain ⟨g, hg⟩ := Option.isSome_iff_exists.mp hsome
  have hgk : g.1 = k := by simpa using List.find?_some hg
  exact ⟨g.2, by rw [hg, ← hgk]⟩

/-- A key without a dot leads to its element. -/
theorem navigate_key (hget : GetFinds crates) {doc : Document} {k : String} {v : Bson}
    (hk : '.' ∉ k.toList) (hv : doc.find? (·.1 = k) = some (k, v)) :
    navigate crates T (.document doc) k = some v := by
  rw [navigate_eq_follow, segments_of_no_dot hk, follow_singleton, segmentChild, hget, hv]
  rfl

/-- A key with a dot leads nowhere in the document that has no other key. -/
theorem navigate_dotted_key (hget : GetFinds crates) {k : String} (v : Bson)
    (hk : '.' ∈ k.toList) : navigate crates T (.document [(k, v)]) k = none := by
  obtain ⟨seg, rest, hseg, hne⟩ := segments_of_dot hk
  have hfind : [(k, v)].find? (·.1 = seg) = none := by
    simpa using hne.symm
  rw [navigate_eq_follow, hseg, follow_cons, segmentChild, hget, hfind]
  rfl

/-- Every reported key without a dot is projected: its type and every rendering are those of the
element with that key. -/
theorem keys_project (hget : GetFinds crates) (hkeys : KeysInOrder crates)
    (hhex : HexEncodes crates) (b : Bytes T) (ks : List String) (h : keys crates b = .ok ks)
    (k : String) (hmem : k ∈ ks) (hk : '.' ∉ k.toList) (mode : Coerce) :
    ∃ doc v text, decodeDocument crates b = .ok doc ∧ doc.find? (·.1 = k) = some (k, v) ∧
      typeOf crates b (some k) = .ok (some (typeName v)) ∧
      coerce crates v mode = (.ok text : Outcome DecodeError String) ∧
      field crates b k mode = .ok (some text) := by
  obtain ⟨doc, hdoc, hks⟩ := bind_eq_ok_iff.mp h
  cases hks
  rw [hkeys] at hmem
  obtain ⟨v, hv⟩ := find?_of_mem_keys hmem
  obtain ⟨text, htext⟩ := coerce_total (ε := DecodeError) hhex v mode
  have hnav := navigate_key (T := T) hget hk hv
  refine ⟨doc, v, text, hdoc, hv, ?_, htext, ?_⟩
  · rw [typeOf_of_decode hdoc, hnav]
    rfl
  · rw [field_of_decode hdoc, hnav]
    show some <$> coerce crates v mode = _
    rw [htext]
    rfl

/-- A library that reads the given document and no other. -/
noncomputable def knownCrates (doc : Document) : Crates := { formatCrates with
  fromReader := fun b => if b = documentBytes doc then .ok doc else .error "invalid document"
  hexEncode := fun bytes => String.ofList (encode bytes) }

theorem encodesHex_knownCrates (doc : Document) : EncodesHex (knownCrates doc) := fun _ => rfl

theorem hexEncodes_knownCrates (doc : Document) : HexEncodes (knownCrates doc) :=
  (encodesHex_knownCrates doc).hexEncodes

theorem getFinds_knownCrates (doc : Document) : GetFinds (knownCrates doc) := fun _ _ => rfl

theorem keysInOrder_knownCrates (doc : Document) : KeysInOrder (knownCrates doc) := fun _ => rfl

theorem fromReader_knownCrates (doc : Document) :
    (knownCrates doc).fromReader (documentBytes doc) = .ok doc := if_pos rfl

theorem decode_knownCrates {doc : Document} {b : Bytes T} (hb : b.data = documentBytes doc)
    (hs : Storable (.document doc)) (hlen : b.data.length < 2 ^ 31)
    (hlevels : levels (.document doc) ≤ maxNesting + 1) :
    decodeDocument (knownCrates doc) b = .ok doc := by
  have hvalid := (validate_documentBytes_iff hb hs hlen).mpr hlevels
  exact (decodeDocument_eq_ok_iff _).mpr ⟨precheck_of_validate hvalid, if_pos hb⟩

/-- A document whose only key is plain. -/
def plainDocument : Document := [("a", .int32 1)]

def plainBytes : Bytes .bits64 := ⟨documentBytes plainDocument, by decide⟩

theorem decode_plainBytes : decodeDocument (knownCrates plainDocument) plainBytes =
    .ok plainDocument :=
  decode_knownCrates rfl ⟨⟨by decide, by decide⟩, trivial, trivial⟩ (by decide) (by decide)

theorem keys_project_plainBytes :
    ∃ doc v text, decodeDocument (knownCrates plainDocument) plainBytes = .ok doc ∧
      doc.find? (·.1 = "a") = some ("a", v) ∧
      typeOf (knownCrates plainDocument) plainBytes (some "a") = .ok (some (typeName v)) ∧
      coerce (knownCrates plainDocument) v .json = (.ok text : Outcome DecodeError String) ∧
      field (knownCrates plainDocument) plainBytes "a" .json = .ok (some text) := by
  have hks : keys (knownCrates plainDocument) plainBytes = .ok ["a"] := by
    rw [keys, decode_plainBytes]
    rfl
  exact keys_project (getFinds_knownCrates _) (keysInOrder_knownCrates _)
    (hexEncodes_knownCrates _) plainBytes ["a"] hks "a" (by simp) (by decide) .json

/-- A document whose only key has a dot. -/
def dottedDocument : Document := [("a.b", .int32 1)]

def dottedBytes : Bytes .bits64 := ⟨documentBytes dottedDocument, by decide⟩

theorem decode_dottedBytes : decodeDocument (knownCrates dottedDocument) dottedBytes =
    .ok dottedDocument :=
  decode_knownCrates rfl ⟨⟨by decide, by decide⟩, trivial, trivial⟩ (by decide) (by decide)

/-- The key is reported, and reads back as a missing path. -/
theorem keys_miss_dottedBytes : GetFinds (knownCrates dottedDocument) ∧
    KeysInOrder (knownCrates dottedDocument) ∧ HexEncodes (knownCrates dottedDocument) ∧
    keys (knownCrates dottedDocument) dottedBytes = .ok ["a.b"] ∧
    typeOf (knownCrates dottedDocument) dottedBytes (some "a.b") = .ok none ∧
    field (knownCrates dottedDocument) dottedBytes "a.b" .infer = .ok none := by
  have hnav : navigate (knownCrates dottedDocument) .bits64 (.document dottedDocument) "a.b" =
      none := navigate_dotted_key (getFinds_knownCrates _) _ (by decide)
  refine ⟨getFinds_knownCrates _, keysInOrder_knownCrates _, hexEncodes_knownCrates _, ?_, ?_, ?_⟩
  · rw [keys, decode_dottedBytes]
    rfl
  · rw [typeOf_of_decode decode_dottedBytes, hnav]
    rfl
  · rw [field_of_decode decode_dottedBytes, hnav]

end VgiBson.ProjectedKeys
