import VgiBson.JsonColumns

/-! # Creation times of captured entries

The query over a capture: it is split, the id of every entry is projected as text, and the creation
time is read from the text. Ids have their exact times, in the order of the entries, and an entry
whose id is missing or a whole number has none. -/

namespace VgiBson.EntryTimes

open MachineBytes CursorWalks PrefixCodes BsonGrammar StructuralValidator ValidatorGrammar
  SequenceSplitter ArrowColumns ProducerRuns SequenceTable BsonValues BsonEncoding DocumentDecoding
  FieldProjection ProjectedKeys ColumnEncoding HexText ObjectIds ScalarColumns ScalarFunctions
  ScalarRows ScalarCalls EncodedDocuments EncodedStreams ObjectIdColumns JsonColumns
open CrateAssumptions (formatCrates)

variable {T : Target} {crates : Crates} {oids : OidCrate} {debug : ArrayRef → String}
  {path : String} {doc : Document} {docs : List Document}

/-- A document as a capture holds it: the format has room for it, it is not nested too deep, and the
library reads it. -/
structure Captured (crates : Crates) (doc : Document) : Prop where
  storable : Storable (.document doc)
  length_lt : (documentBytes doc).length < 2 ^ 31
  shallow : shallow doc = true
  read : crates.fromReader (documentBytes doc) = .ok doc

/-- The text of the id at the path. -/
def idText (crates : Crates) (T : Target) (path : String) (doc : Document) : Option String :=
  (navigate crates T (.document doc) path).bind fun leaf =>
    (coerce crates leaf .objectId : Outcome DecodeError String).toOption

/-- The creation time that the text spells. -/
def entryTime (crates : Crates) (oids : OidCrate) (T : Target) (path : String) (doc : Document) :
    Option Int64 :=
  (idText crates T path doc).bind fun text => (oids.parseStr (trim text)).map (created oids)

/-- A value without a creation time, whatever its text. -/
def undated : Bson → Bool
  | .boolean _ | .int32 _ | .int64 _ | .null => true
  -- the text of a double may well have 24 digits
  | _ => false

/-- An id is spelled with 24 digits. -/
theorem parseStr_of_length_lt (hparses : ParsesHex oids) {s : String}
    (h : s.toList.length < 24) : oids.parseStr (trim s) = none := by
  rw [hparses, Option.bind_eq_none_iff]
  intro bytes hbytes
  by_contra hid
  obtain ⟨oid, hoid⟩ := Option.ne_none_iff_exists'.mp hid
  have hlen : bytes.length = 12 := exists_tryInto_iff.mp ⟨oid, hoid⟩
  have h24 := (exists_decode_iff.mp ⟨bytes, hbytes, hlen⟩).1
  obtain ⟨l, r, hs, -, -⟩ := exists_padding s
  rw [hs, List.length_append, List.length_append] at h
  omega

theorem length_toString_lt {i : ℤ} (h : i.natAbs < 10 ^ 20) : (toString i).toList.length < 24 := by
  cases i with
  | ofNat n =>
    have hdigits := (Nat.length_repr_le_iff (n := n) (by decide : 0 < 20)).mpr (by simpa using h)
    change n.repr.toList.length < 24
    rw [String.length_toList]
    omega
  | negSucc n =>
    have hdigits :=
      (Nat.length_repr_le_iff (n := n + 1) (by decide : 0 < 20)).mpr (by simpa using h)
    change ("-" ++ (n + 1).repr).toList.length < 24
    rw [String.toList_append, List.length_append, String.length_toList, String.length_toList]
    have hsign : "-".length = 1 := by decide
    omega

theorem length_text_of_undated {leaf : Bson} {text : String} (h : undated leaf = true)
    (htext : (coerce crates leaf .objectId : Outcome DecodeError String) = .ok text) :
    text.toList.length < 24 := by
  cases leaf with
  | boolean b =>
    cases htext
    cases b <;> decide
  | int32 i =>
    cases htext
    have hlo := i.le_toInt
    have hhi := i.toInt_lt
    exact length_toString_lt (by omega)
  | int64 i =>
    cases htext
    have hlo := i.le_toInt
    have hhi := i.toInt_lt
    exact length_toString_lt (by omega)
  | null =>
    cases htext
    decide
  | _ => cases h

theorem entryTime_of_objectId (hwrites : WritesHex crates) (hparses : ParsesHex oids)
    {oid : ObjectId} (h : navigate crates T (.document doc) path = some (.objectId oid)) :
    entryTime crates oids T path doc = some (created oids oid) := by
  have htext : idText crates T path doc = some (String.ofList (encode oid.toList)) := by
    rw [idText, h, ← hwrites]
    rfl
  rw [entryTime, htext, Option.bind_some, parseStr_encode hparses]
  rfl

theorem entryTime_of_none (h : navigate crates T (.document doc) path = none) :
    entryTime crates oids T path doc = none := by
  rw [entryTime, idText, h]
  rfl

theorem entryTime_of_undated (hparses : ParsesHex oids) {leaf : Bson}
    (h : navigate crates T (.document doc) path = some leaf) (hleaf : undated leaf = true) :
    entryTime crates oids T path doc = none := by
  have htext : idText crates T path doc =
      (coerce crates leaf .objectId : Outcome DecodeError String).toOption := by
    rw [idText, h]
    rfl
  rw [entryTime, htext]
  cases hc : (coerce crates leaf .objectId : Outcome DecodeError String) with
  | error e => rfl
  | ok text =>
    exact congrArg (Option.map (created oids))
      (parseStr_of_length_lt hparses (length_text_of_undated hleaf hc))

theorem coerce_objectId (leaf : Bson) :
    ∃ text, (coerce crates leaf .objectId : Outcome DecodeError String) = .ok text := by
  have hinfer := @infer_total DecodeError crates leaf
  cases leaf <;> exact hinfer

theorem field_idText_of_decode {b : Bytes T} (h : decodeDocument crates b = .ok doc) :
    field crates b path .objectId = .ok (idText crates T path doc) := by
  rw [field, h, ok_bind, idText]
  dsimp only
  cases navigate crates T (.document doc) path with
  | none => rfl
  | some leaf =>
    obtain ⟨text, htext⟩ := @coerce_objectId crates leaf
    dsimp only [Option.bind_some]
    rw [htext]
    rfl

/-- The documents of a batch as the next function gets them. -/
def entryColumn (batch : RecordBatch T) : ArrayRef :=
  .scalar .binary none ((rowsOf batch).map fun d => d.doc.data)

theorem blobBytes_entryColumn {batch : RecordBatch T} {i : ℕ} {d : SeqDoc T}
    (h : (rowsOf batch)[i]? = some d) :
    blobBytes debug T (entryColumn batch) i = .ok (some d.doc) := by
  have hvalue : ((rowsOf batch).map fun d => d.doc.data)[i]? = some d.doc.data := by
    rw [List.getElem?_map, h]
    rfl
  have hread : blobValue debug T (entryColumn batch) i = .ok d.doc := by
    rw [entryColumn, blobValue, element, hvalue]
    exact slice_data d.doc
  exact congrArg (some <$> ·) hread

/-- Every entry of the batch is read and projected. -/
theorem mapBlobs_entryColumn {batch : RecordBatch T}
    (hrows : (rowsOf batch).Forall₂ (fun d doc => decodeDocument crates d.doc = .ok doc) docs) :
    mapBlobs debug T (fun b => Option.join <$> okOrNone (field crates b path .objectId))
      (entryColumn batch) = .ok (docs.map (idText crates T path)) := by
  have hlen : (entryColumn batch).len = (docs.map (idText crates T path)).length := by
    rw [List.length_map, ← hrows.length_eq]
    exact List.length_map _
  refine mapM_range_eq hlen ?_
  intro i text h
  obtain ⟨doc, hdoc, rfl⟩ := Option.map_eq_some_iff.mp ((List.getElem?_map ..).symm.trans h)
  obtain ⟨hi, rfl⟩ := List.getElem?_eq_some_iff.mp hdoc
  have hi' : i < (rowsOf batch).length := hrows.length_eq ▸ hi
  have hfield : field crates (rowsOf batch)[i].doc path .objectId =
      .ok (idText crates T path docs[i]) := field_idText_of_decode (hrows.get hi' hi)
  rw [blobBytes_entryColumn (List.getElem?_eq_getElem hi')]
  change Option.join <$> okOrNone (field crates (rowsOf batch)[i].doc path .objectId) = _
  rw [hfield]
  rfl

/-- The ids of the entries are returned as text, if they have room. -/
theorem field_call {args : Arguments} (hpath : Field.path args = .ok path)
    (hmode : Field.mode args = .ok .objectId) {batch : RecordBatch T}
    (hrows : (rowsOf batch).Forall₂ (fun d doc => decodeDocument crates d.doc = .ok doc) docs)
    (hfit : ((docs.map (idText crates T path)).map textSize).sum ≤ maxOffset) (name : String) :
    ∃ texts, Field.process crates debug T args (boundSchema name .utf8) (entryColumn batch) =
      .ok texts ∧ texts.column = .utf8 (docs.map (idText crates T path)) := by
  obtain ⟨texts, htexts, hcolumn⟩ :=
    respond_boundSchema name (c := .utf8 (docs.map (idText crates T path))) rfl
  refine ⟨texts, ?_, hcolumn⟩
  rw [Field.process, hpath, hmode]
  change mapBlobs debug T (fun b => Option.join <$> okOrNone (field crates b path .objectId))
    (entryColumn batch) >>= _ = _
  rw [mapBlobs_entryColumn hrows]
  change stringArray _ >>= respond _ = _
  rw [stringArray, buildBytes_eq, if_pos hfit]
  exact htexts

theorem timestamp_call (name : String) : ∃ times,
    ObjectIdTimestamp.process oids debug T (boundSchema name (.clock .timestamptz))
      (textInput (docs.map (idText crates T path))) = .ok times ∧
    values times.column = docs.map fun doc =>
      nullOr .timestamptz (entryTime crates oids T path doc) := by
  obtain ⟨times, htimes, hcolumn⟩ := respond_boundSchema name
    (c := .clock (ReplicationClock.tsMillisArray ((docs.map (idText crates T path)).map fun text =>
      millisOf oids text (none : Option (Bytes T))))) rfl
  refine ⟨times, ?_, ?_⟩
  · rw [objectIdTimestamp_textInput]
    exact htimes
  · rw [hcolumn, ReplicationClock.tsMillisArray, values, List.map_map, List.map_map, List.map_map]
    apply List.map_congr_left
    intro doc _
    simp only [Function.comp_apply, millisOf, entryTime]
    cases idText crates T path doc with
    | none => rfl
    | some text =>
      simp only [parseObjectidAny, Option.bind_some]
      cases oids.parseStr (trim text) <;> rfl

/-- The capture is split into its documents, and each is read back. -/
theorem split_captured (hdocs : ∀ doc ∈ docs, Captured crates doc) {tail : List UInt8}
    (htail : ∀ w t, tail = w ++ t → ¬ Doc (rules false) 0 w) {s : Bytes T}
    (hs : s.data = docs.flatMap documentBytes ++ tail) : ∃ found, split s = .ok found ∧
      found.Forall₂ (fun d doc => decodeDocument crates d.doc = .ok doc) docs := by
  have hcut : Factors (Doc (rules false) 0) s.data (docs.map documentBytes) tail := by
    refine ⟨by rw [hs, List.flatMap_def], ?_, htail⟩
    intro w hw
    obtain ⟨doc, hdoc, rfl⟩ := List.mem_map.mp hw
    have h := hdocs doc hdoc
    exact (shallow_iff h.storable h.length_lt false).mp h.shallow
  obtain ⟨ds, rest, hds, hsplit⟩ := split_factors s
  have hfound : List.Forall₂ (Recovered crates) (numbered 0 ds) docs := by
    apply forall₂_recovered 0 (hcut.unique (prefixCode_doc _ _) hds).1
    intro doc hdoc
    have h := hdocs doc hdoc
    exact ⟨h.storable, h.length_lt, h.shallow⟩
  refine ⟨numbered 0 ds, hsplit, ?_⟩
  have hread : docs.Forall₂ (fun doc d => crates.fromReader (documentBytes doc) = .ok doc ∧
      Recovered crates d doc) (numbered 0 ds) :=
    (List.forall₂_and_left _ _).mpr ⟨fun doc hdoc => (hdocs doc hdoc).read, hfound.flip⟩
  exact hread.flip.imp fun d doc h => h.2.2.2 h.1

/-- The creation times of a capture: splitting it, projecting the id of each entry and reading
the time from the text gives, for every document of the capture and in their order, the exact time
of its id, and null if the id is missing or is a whole number, a truth value or null. Bytes behind
the documents that begin no further one do not matter. -/
theorem captured_entries_dated (crates : Crates) (oids : OidCrate) (hwrites : WritesHex crates)
    (hparses : ParsesHex oids) (hseconds : ReadsSeconds oids) (debug : ArrayRef → String)
    (T : Target) (args : Arguments) (path : String) (hpath : Field.path args = .ok path)
    (hmode : Field.mode args = .ok .objectId) (docs : List Document)
    (hdocs : ∀ doc ∈ docs, Captured crates doc) (tail : List UInt8)
    (htail : ∀ w t, tail = w ++ t → ¬ Doc (rules false) 0 w) (s : Bytes T)
    (hs : s.data = docs.flatMap documentBytes ++ tail) (hroom : s.len ≤ maxOffset)
    (name : String) :
    (∃ p entries, producer schema (some s) = .ok p ∧ Returns (callAt nextBatch p) [entries] ∧
      (((docs.map (idText crates T path)).map textSize).sum ≤ maxOffset → ∃ texts rows times,
        Field.process crates debug T args (boundSchema name .utf8) (entryColumn entries) =
          .ok texts ∧ texts.column = .utf8 rows ∧
        ObjectIdTimestamp.process oids debug T (boundSchema name (.clock .timestamptz))
          (textInput rows) = .ok times ∧
        values times.column = docs.map fun doc =>
          nullOr .timestamptz (entryTime crates oids T path doc))) ∧
    ∀ doc,
      (∀ oid, navigate crates T (.document doc) path = some (.objectId oid) →
        ∃ time, entryTime crates oids T path doc = some time ∧
          time.toInt = 1000000 * secondsOf oid) ∧
      (navigate crates T (.document doc) path = none →
        entryTime crates oids T path doc = none) ∧
      ∀ leaf, navigate crates T (.document doc) path = some leaf → undated leaf = true →
        entryTime crates oids T path doc = none := by
  constructor
  · obtain ⟨found, hsplit, hfound⟩ := split_captured hdocs htail hs
    obtain ⟨entries, hentries, hrows⟩ := (runs_of_docs found).1 ((seqBytes_le hsplit).trans hroom)
    refine ⟨_, entries, producer_of_split hsplit, hentries, ?_⟩
    intro hfit
    obtain ⟨texts, htexts, hcolumn⟩ := field_call hpath hmode (hrows ▸ hfound) hfit name
    obtain ⟨times, htimes, hvalues⟩ := timestamp_call name
    exact ⟨texts, _, times, htexts, hcolumn, htimes, hvalues⟩
  · intro doc
    refine ⟨?_, entryTime_of_none, fun leaf => entryTime_of_undated hparses⟩
    intro oid hoid
    exact ⟨_, entryTime_of_objectId hwrites hparses hoid, toInt_created hseconds oid⟩

/-- Three entries: two with ids that are a second apart, and one with a number between them. -/
def capturedEntries : List Document := [
  [("_id", .objectId
    ⟨#[0x54, 0x75, 0x9e, 0xb3, 0xc0, 0x90, 0xd8, 0x34, 0x94, 0xe2, 0xd8, 0x04], rfl⟩)],
  [("_id", .int32 7)],
  [("_id", .objectId
    ⟨#[0x54, 0x75, 0x9e, 0xb4, 0xc0, 0x90, 0xd8, 0x34, 0x94, 0xe2, 0xd8, 0x05], rfl⟩)]]

/-- A library that reads the entries and no other documents. -/
noncomputable def entryCrates : Crates := { formatCrates with
  fromReader := fun b =>
    (capturedEntries.find? (documentBytes · = b)).elim (.error "invalid document") .ok
  toHex := fun oid => String.ofList (encode oid.toList) }

/-- The entries, and the first byte of another. -/
def captureBytes : Bytes .bits64 :=
  ⟨capturedEntries.flatMap documentBytes ++ [0x16], by decide⟩

def idArguments : Arguments := fun i => if i = 1 then some "_id" else some "objectid"

theorem captured_entries : ∀ doc ∈ capturedEntries, Captured entryCrates doc := by
  intro doc hdoc
  simp only [capturedEntries, List.mem_cons, List.not_mem_nil, or_false] at hdoc
  rcases hdoc with rfl | rfl | rfl <;>
    exact ⟨⟨⟨by decide, by decide⟩, trivial, trivial⟩, by decide, by decide, rfl⟩

theorem captured_entries_dated_captureBytes :
    (∃ p entries, producer schema (some captureBytes) = .ok p ∧
      Returns (callAt nextBatch p) [entries] ∧ ∃ texts rows times,
        Field.process entryCrates (fun _ => "Binary") .bits64 idArguments
          (boundSchema "created" .utf8) (entryColumn entries) = .ok texts ∧
        texts.column = .utf8 rows ∧
        ObjectIdTimestamp.process hexOids (fun _ => "Binary") .bits64
          (boundSchema "created" (.clock .timestamptz)) (textInput rows) = .ok times ∧
        values times.column = capturedEntries.map fun doc =>
          nullOr .timestamptz (entryTime entryCrates hexOids .bits64 "_id" doc)) ∧
    entryTime entryCrates hexOids .bits64 "_id" [("_id", .int32 7)] = none := by
  have hmode : Field.mode idArguments = .ok .objectId := by decide
  have htail (w t : List UInt8) (h : [0x16] = w ++ t) : ¬ Doc (rules false) 0 w := by
    intro hw
    have h5 := hw.prefix_length.1
    have hlen := congrArg List.length h
    rw [List.length_append, List.length_singleton] at hlen
    omega
  obtain ⟨⟨p, entries, hp, hentries, hcalls⟩, htimes⟩ := captured_entries_dated entryCrates hexOids
    (fun _ => rfl) (fun _ => rfl) readsSeconds_hexOids (fun _ => "Binary") .bits64 idArguments "_id"
    rfl hmode capturedEntries captured_entries [0x16] htail captureBytes rfl (by decide) "created"
  refine ⟨⟨p, entries, hp, hentries, hcalls (by decide)⟩, ?_⟩
  have hid : navigate entryCrates .bits64 (.document [("_id", .int32 7)]) "_id" =
      some (.int32 7) := navigate_key (fun _ _ => rfl) (by decide) rfl
  exact (htimes _).2.2 _ hid rfl

end VgiBson.EntryTimes
