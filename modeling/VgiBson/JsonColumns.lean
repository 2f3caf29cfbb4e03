import VgiBson.EncodedStreams
import VgiBson.ExtendedJsonRoundTrip
import VgiBson.ObjectIdColumns

/-! # Columns of Extended JSON

The canonical text of a column of documents is turned back into the column, cell by cell, as far as
the JSON parser goes. A column of the encoder whose type is not nested too deep comes back whole. -/

namespace VgiBson.JsonColumns

open MachineBytes CursorWalks ArrowColumns BsonValues BsonEncoding DocumentDecoding CrateAssumptions
  LengthEquations ColumnEncoding EncodedDocuments ExtendedJsonRoundTrip ScalarColumns
  ScalarFunctions ScalarRows ScalarCalls EncodedStreams ObjectIdColumns

variable {T : Target} {crates : Crates} {debug : ArrayRef → String}

/-- A column of blobs as the next function gets it. -/
def blobInput (rows : List (Option (List UInt8))) : ArrayRef :=
  .scalar .binary (some (rows.map Option.isSome)) (rows.map (·.getD []))

theorem maxOffset_le (T : Target) : maxOffset ≤ T.isizeMax := by
  cases T <;> decide

/-- Cells of the given sizes are slices in memory. -/
theorem exists_slices {rows : List (Option (List UInt8))}
    (h : (rows.map blobSize).sum ≤ maxOffset) :
    ∃ cells : List (Option (Bytes T)), cells.map (Option.map Bytes.data) = rows := by
  induction rows with
  | nil => exact ⟨[], rfl⟩
  | cons row rows ih =>
    rw [List.map_cons, List.sum_cons] at h
    obtain ⟨cells, rfl⟩ := ih (by omega)
    cases row with
    | none => exact ⟨none :: cells, rfl⟩
    | some bytes =>
      have hsize : blobSize (some bytes) = bytes.length := rfl
      have hfits : bytes.length ≤ T.isizeMax := by
        have hmax := maxOffset_le T
        omega
      exact ⟨some ⟨bytes, hfits⟩ :: cells, rfl⟩

theorem slice_data (b : Bytes T) : (slice T b.data : Outcome RpcError (Bytes T)) = .ok b :=
  dif_pos b.fits

/-- A column whose mask and values are those of the cells is read as the cells. -/
theorem blobCells_of_values {col : ArrayRef} {cells : List (Option (Bytes T))}
    (hlen : col.len = cells.length) (hnulls : col.nulls = some (cells.map Option.isSome))
    (hvalues : ∀ i b, cells[i]? = some (some b) → blobValue debug T col i = .ok b) :
    blobCells debug T col = .ok cells := by
  refine mapM_range_eq hlen ?_
  intro i cell h
  have hmask : (cells.map Option.isSome)[i]? = some cell.isSome := by
    rw [List.getElem?_map, h, Option.map_some]
  rw [blobBytes, hnulls, isNull, element, hmask]
  cases cell with
  | none => rfl
  | some b => exact congrArg (some <$> ·) (hvalues i b h)

theorem blobCells_blobInput (cells : List (Option (Bytes T))) :
    blobCells debug T (blobInput (cells.map (Option.map Bytes.data))) = .ok cells := by
  apply blobCells_of_values
  · simp [blobInput, ArrayRef.len]
  · simp [blobInput, ArrayRef.nulls]
  · intro i b h
    have hvalue : ((cells.map (Option.map Bytes.data)).map (·.getD []))[i]? = some b.data := by
      simp [h]
    rw [blobInput, blobValue, element, hvalue]
    exact slice_data b

/-- Text is read as its bytes. -/
theorem blobCells_textInput {rows : List (Option String)} {cells : List (Option (Bytes T))}
    (hcells : cells.map (Option.map Bytes.data) = rows.map (Option.map utf8)) :
    blobCells debug T (textInput rows) = .ok cells := by
  apply blobCells_of_values
  · have hlen := congrArg List.length hcells
    simpa [textInput, ArrayRef.len] using hlen.symm
  · have hmask := congrArg (List.map Option.isSome) hcells
    simpa [textInput, ArrayRef.nulls, Function.comp_def] using hmask.symm
  · intro i b h
    have hrow : (rows.map (Option.map utf8))[i]? = some (some b.data) := by
      rw [← hcells, List.getElem?_map, h]
      rfl
    rw [List.getElem?_map] at hrow
    obtain ⟨text, htext, hdata⟩ := Option.map_eq_some_iff.mp hrow
    obtain ⟨s, rfl, hs⟩ := Option.map_eq_some_iff.mp hdata
    have hvalue : (rows.map (·.getD ""))[i]? = some s := by
      rw [List.getElem?_map, htext]
      rfl
    rw [textInput, blobValue, element, hvalue]
    change slice T (utf8 s) = .ok b
    rw [hs, slice_data]

/-- What is assumed of the libraries on a document: both conversions are undone. No key of it begins
with a dollar sign. -/
structure Undone (crates : Crates) (doc : Document) : Prop where
  keys : PlainKeys (.document doc)
  back : ConvertsBack crates doc
  reads : ReadsBack crates (crates.intoCanonicalExtjson (.document doc))

/-- The canonical text of a cell. -/
def textOf (crates : Crates) (cell : Option (Bytes T)) : Option String :=
  cell.bind fun b => (toJson crates b .canonical).toOption

/-- The bytes that a cell comes back with: those of a document whose text nests below the limit of
the parser. -/
def returned (crates : Crates) (cell : Option (Bytes T)) : Option (List UInt8) :=
  cell.bind fun b =>
    match decodeDocument crates b with
    | .ok doc => if jsonLevels (.document doc) < recursionLimit then some b.data else none
    | .error _ => none

theorem returned_of_decode {b : Bytes T} {doc : Document} (h : decodeDocument crates b = .ok doc) :
    returned crates (some b) =
      if jsonLevels (.document doc) < recursionLimit then some b.data else none := by
  rw [returned, Option.bind_some, h]

/-- What is assumed of the libraries on a cell: its document is written as it was read, and its
conversions are undone. -/
def Reversible (crates : Crates) (cell : Option (Bytes T)) : Prop :=
  ∀ b, cell = some b → ∀ doc, decodeDocument crates b = .ok doc →
    crates.toWriter doc = .ok b.data ∧ Undone crates doc

/-- The text of a cell gives the cell or nothing. -/
theorem fromJson_textOf (hshape : ConvertsByShape crates) {cell : Option (Bytes T)}
    (hdoc : Reversible crates cell) :
    ((textOf crates cell).bind fun s => (fromJson crates s).toOption) = returned crates cell := by
  cases cell with
  | none => rfl
  | some b =>
    rw [textOf, Option.bind_some]
    cases hdecode : decodeDocument crates b with
    | error e =>
      have hjson : toJson crates b .canonical = .error e := by
        rw [toJson, hdecode]
        rfl
      rw [hjson, returned, Option.bind_some, hdecode]
      rfl
    | ok doc =>
      obtain ⟨hwrite, hkeys, hback, hbelow, habove⟩ := hdoc b rfl doc hdecode
      rw [nesting_intoCanonicalExtjson hshape] at hbelow habove
      rw [toJson_of_decode hdecode, returned_of_decode hdecode]
      change (fromJson crates (documentToExtjson crates doc .canonical)).toOption = _
      split
      · next hlt =>
        have hread := fromJson_of_reads (hbelow hlt) (hback hkeys) hwrite
        exact congrArg Except.toOption hread
      · next hge =>
        obtain ⟨e, he⟩ := habove (Nat.not_lt.mp hge)
        exact congrArg Except.toOption (fromJson_of_rejects he)

/-- What `from_json` makes of the text of a cell. -/
def comesBack (crates : Crates) (cell : Option (Bytes T)) : Option (List UInt8) :=
  (textOf crates cell).bind fun s => (fromJson crates s).toOption

/-- The rows of a call of `to_json` that returns. -/
theorem toJson_eq_ok {args : Arguments} (hmode : ToJson.mode args = .ok .canonical) {col : ArrayRef}
    {cells : List (Option (Bytes T))} (hcells : blobCells debug T col = .ok cells)
    {fields : List ResultField} {batch : ResultBatch}
    (h : ToJson.process crates debug T args fields col = .ok batch) :
    batch.column = .utf8 (cells.map (textOf crates)) ∧
      ((cells.map (textOf crates)).map textSize).sum ≤ maxOffset := by
  have hread : mapBlobs debug T (fun b => okOrNone (toJson crates b .canonical)) col =
      .ok (cells.map (textOf crates)) := by
    refine (mapBlobs_eq
      (fun b => okOrNone_of_returned (returned_toJson crates b .canonical)) col).trans ?_
    rw [hcells]
    rfl
  rw [ToJson.process, hmode] at h
  change mapBlobs debug T (fun b => okOrNone (toJson crates b .canonical)) col >>=
    (fun out => stringArray out >>= respond fields) = .ok batch at h
  rw [hread] at h
  exact built_eq_ok h

/-- `from_json` on a column of results. -/
theorem fromJson_textInput {rows : List (Option String)}
    (hfit : (rows.map textSize).sum ≤ maxOffset) (fields : List ResultField) :
    FromJson.process crates debug T fields (textInput rows) =
      binaryArray (rows.map (Option.bind · fun s => (fromJson crates s).toOption)) >>=
        respond fields := by
  have hsizes : (rows.map (Option.map utf8)).map blobSize = rows.map textSize := by
    rw [List.map_map]
    apply List.map_congr_left
    intro text _
    cases text <;> rfl
  obtain ⟨cells, hcells⟩ : ∃ cells : List (Option (Bytes T)),
    cells.map (Option.map Bytes.data) = rows.map (Option.map utf8) :=
      exists_slices (by rwa [hsizes])
  have hread : mapBlobs debug T
      (fun b => pure ((fromUtf8 b.data).bind fun s => (fromJson crates s).toOption))
      (textInput rows) = .ok (rows.map (Option.bind · fun s => (fromJson crates s).toOption)) := by
    refine (mapBlobs_eq (fun _ => rfl) _).trans ?_
    rw [blobCells_textInput hcells]
    have hsplit (cell : Option (Bytes T)) :
        (cell.bind fun b => (fromUtf8 b.data).bind fun s => (fromJson crates s).toOption) =
          ((cell.map Bytes.data).bind fromUtf8).bind fun s => (fromJson crates s).toOption := by
      cases cell <;> rfl
    have hback (text : Option String) : (text.map utf8).bind fromUtf8 = text := by
      cases text with
      | none => rfl
      | some s => exact (fromUtf8_eq_some_iff _ s).mpr rfl
    simp only [hsplit]
    have hmap := congrArg (List.map fun data : Option (List UInt8) =>
      (data.bind fromUtf8).bind fun s => (fromJson crates s).toOption) hcells
    simp only [List.map_map, Function.comp_def, hback] at hmap
    exact congrArg Except.ok hmap
  rw [FromJson.process, hread]
  rfl

/-- A column comes back from its Extended JSON cell by cell: the canonical text, which `decode`
gives too, is turned back into the bytes of the document if it nests below the limit of the parser,
and into null otherwise, wherever the libraries undo what they do. -/
theorem json_columns_compose (crates : Crates) (hshape : ConvertsByShape crates)
    (debug : ArrayRef → String) (T : Target) (args : Arguments)
    (hmode : ToJson.mode args = .ok .canonical) (col : ArrayRef) (cells : List (Option (Bytes T)))
    (hcells : blobCells debug T col = .ok cells) (fields : List ResultField) (texts : ResultBatch)
    (htexts : ToJson.process crates debug T args fields col = .ok texts) (name : String) :
    Decode.process crates debug T fields col = .ok texts ∧
      ∃ rows backs, texts.column = .utf8 rows ∧
        Answers (FromJson.process crates debug T (boundSchema name .binary) (textInput rows))
          .binary (backs.map (nullOr .blob)) ∧
        List.Forall₂ (fun cell back => Reversible crates cell → back = returned crates cell)
          cells backs := by
  obtain ⟨hrows, hfit⟩ := toJson_eq_ok hmode hcells htexts
  constructor
  · rw [ToJson.process, hmode] at htexts
    exact htexts
  · refine ⟨_, cells.map (comesBack crates), hrows, ?_, ?_⟩
    · rw [fromJson_textInput hfit, List.map_map]
      exact answers_of_built (built_binaryArray _) name
    · rw [List.forall₂_map_right_iff]
      exact List.forall₂_same.mpr fun cell _ => fromJson_textOf hshape

section Encoded

variable {floats : Floats}

theorem jsonLevelsItems_le {n : ℕ} {vs : List Bson} (h : ∀ v ∈ vs, jsonLevels v ≤ levels v + n) :
    jsonLevelsItems vs ≤ levelsItems vs + n := by
  induction vs with
  | nil => exact Nat.zero_le _
  | cons v vs ih =>
    simp only [List.mem_cons, forall_eq_or_imp] at h
    have hrest := ih h.2
    simp only [jsonLevelsItems, levelsItems]
    omega

theorem jsonLevelsFields_le {n : ℕ} {fs : Document}
    (h : ∀ f ∈ fs, jsonLevels f.2 ≤ levels f.2 + n) :
    jsonLevelsFields fs ≤ levelsFields fs + n := by
  induction fs with
  | nil => exact Nat.zero_le _
  | cons f fs ih =>
    obtain ⟨key, v⟩ := f
    simp only [List.mem_cons, forall_eq_or_imp] at h
    have hrest := ih h.2
    simp only [jsonLevelsFields, levelsFields]
    omega

/-- What holds of the cells without children and is kept by the containers holds of all that is
read. -/
structure Inductive (crates : Crates) (floats : Floats) (P : Bson → Prop) : Prop where
  null : P .null
  scalar : ∀ (ty : ScalarType) (x : ty.Value) (v : Bson),
    (scalarValue crates floats ty x : Outcome RpcError Bson) = .ok v → P v
  array : ∀ vs, (∀ v ∈ vs, P v) → P (.array vs)
  document : ∀ doc : Document, (∀ f ∈ doc, P f.2) → P (.document doc)

mutual

theorem Inductive.valueAt {P : Bson → Prop} (hP : Inductive crates floats P)
    (hinsert : InsertReplaces crates) (array : ArrayRef) {row : ℕ} {v : Bson}
    (h : valueAt crates floats array row = .ok v) : P v := by
  cases array with
  | null len =>
    cases h
    exact hP.null
  | scalar ty nulls values =>
    rcases null_or_of_ok h with rfl | h
    · exact hP.null
    · obtain ⟨x, -, hx⟩ := bind_eq_ok_iff.mp h
      exact hP.scalar ty x v hx
  | list nulls offsets values =>
    rcases null_or_of_ok h with rfl | h
    · exact hP.null
    · obtain ⟨rows, -, h⟩ := bind_eq_ok_iff.mp h
      obtain ⟨out, hout, h⟩ := bind_eq_ok_iff.mp h
      cases h
      exact hP.array out (mapM_forall (fun i v hv => hP.valueAt hinsert values hv) rows hout)
  | struct len nulls columns =>
    rcases null_or_of_ok h with rfl | h
    · exact hP.null
    · obtain ⟨doc, hdoc, h⟩ := bind_eq_ok_iff.mp h
      cases h
      exact hP.document doc (hP.insertColumns hinsert columns (by simp) hdoc)
  | map nulls offsets keys values =>
    rw [valueAt_map] at h
    rcases null_or_of_ok h with rfl | h
    · exact hP.null
    · obtain ⟨rows, -, h⟩ := bind_eq_ok_iff.mp h
      obtain ⟨doc, hdoc, h⟩ := bind_eq_ok_iff.mp h
      cases h
      apply hP.document
      refine foldlM_invariant (P := fun doc : Document => ∀ f ∈ doc, P f.2)
        (fun doc i doc' hd hi => ?_) rows (by simp) hdoc
      obtain ⟨key, -, hi⟩ := bind_eq_ok_iff.mp hi
      obtain ⟨x, hx, hi⟩ := bind_eq_ok_iff.mp hi
      cases hi
      intro f hf
      rw [hinsert] at hf
      rcases mem_insertField hf with hold | rfl
      · exact hd f hold
      · exact hP.valueAt hinsert values hx
  | other debug len nulls =>
    rcases null_or_of_ok h with rfl | h
    · exact hP.null
    · cases h

theorem Inductive.insertColumns {P : Bson → Prop} (hP : Inductive crates floats P)
    (hinsert : InsertReplaces crates) (columns : List (String × ArrayRef)) {row : ℕ}
    {doc doc' : Document} (hdoc : ∀ f ∈ doc, P f.2)
    (h : insertColumns crates floats columns row doc = .ok doc') : ∀ f ∈ doc', P f.2 := by
  match columns with
  | [] =>
    cases h
    exact hdoc
  | (name, column) :: columns =>
    simp only [ColumnEncoding.insertColumns] at h
    obtain ⟨v, hv, h⟩ := bind_eq_ok_iff.mp h
    refine hP.insertColumns hinsert columns ?_ h
    intro f hf
    rw [hinsert] at hf
    rcases mem_insertField hf with hold | rfl
    · exact hdoc f hold
    · exact hP.valueAt hinsert column hv

end

theorem jsonLevels_double_le (bits : UInt64) :
    jsonLevels (.double bits) ≤ levels (.double bits) + 2 := by
  rw [jsonLevels]
  split <;> simp

/-- The text of what is read nests at most two levels deeper: those of a wrapper. -/
theorem inductive_jsonLevels :
    Inductive crates floats fun v => jsonLevels v ≤ levels v + 2 where
  null := Nat.zero_le _
  scalar ty x v h := by
    cases ty with
    | uint64 =>
      cases h
      simp only [intFromU64]
      split
      · simp [jsonLevels]
      · split
        · simp [jsonLevels]
        · exact jsonLevels_double_le _
    | decimal128 scale =>
      obtain ⟨s, -, hs⟩ := bind_eq_ok_iff.mp h
      split at hs <;> cases hs
      · simp [jsonLevels]
      · exact jsonLevels_double_le _
    | float32 =>
      cases h
      exact jsonLevels_double_le _
    | float64 =>
      cases h
      exact jsonLevels_double_le _
    | _ =>
      cases h
      simp [jsonLevels]
  array vs h := by
    have hle := jsonLevelsItems_le h
    simp only [jsonLevels, levels]
    omega
  document doc h := by
    have hle := jsonLevelsFields_le h
    simp only [jsonLevels, levels]
    omega

/-- Every cell that was encoded comes back. -/
theorem returned_of_encoded (hwrite : WritesFormat crates) (hinsert : InsertReplaces crates)
    {col : ArrayRef} (hdepth : nesting col + 2 < recursionLimit)
    (hread : ∀ row doc, valueAt crates floats col row = .ok (.document doc) →
      crates.fromReader (documentBytes doc) = .ok doc) {row : ℕ} {b : Bytes T}
    (h : encodeDocument crates floats col row = .ok (some b.data)) :
    ∃ doc, valueAt crates floats col row = .ok (.document doc) ∧
      decodeDocument crates b = .ok doc ∧ crates.toWriter doc = .ok b.data ∧
      returned crates (some b) = some b.data := by
  obtain ⟨doc, hv, hs, hlevels, hb, hlen⟩ := storable_of_encodeDocument hwrite hinsert h
  obtain ⟨doc', hv', hwritten⟩ := encodeDocument_eq_ok h
  rw [hv] at hv'
  cases hv'
  have hvalid : StructuralValidator.validate b = .ok () := by
    rw [validate_documentBytes_iff hb hs hlen]
    simp only [recursionLimit] at hdepth
    simp only [StructuralValidator.maxNesting]
    omega
  have hdecode : decodeDocument crates b = .ok doc :=
    (decodeDocument_eq_ok_iff crates).mpr
      ⟨precheck_of_validate hvalid, hb ▸ hread row doc hv⟩
  refine ⟨doc, hv, hdecode, hwritten, ?_⟩
  have htext : jsonLevels (.document doc) ≤ levels (.document doc) + 2 :=
    inductive_jsonLevels.valueAt hinsert col hv
  rw [returned_of_decode hdecode, if_pos (by omega)]

/-- Encoded columns come back from their Extended JSON: a column whose type nests lists, structs
and maps at most 125 deep is encoded, rendered and parsed to the blobs that were encoded. -/
theorem encoded_columns_come_back (crates : Crates) (hwrite : WritesFormat crates)
    (hinsert : InsertReplaces crates) (hshape : ConvertsByShape crates) (floats : Floats)
    (col : ArrayRef) (hdepth : nesting col + 2 < recursionLimit)
    (hdocs : ∀ row doc, valueAt crates floats col row = .ok (.document doc) →
      crates.fromReader (documentBytes doc) = .ok doc ∧ Undone crates doc)
    (fields : List ResultField) (blobs : ResultBatch)
    (hblobs : Encode.process crates floats fields col = .ok blobs) (debug : ArrayRef → String)
    (T : Target) (args : Arguments) (hmode : ToJson.mode args = .ok .canonical) :
    ∃ rows, blobs.column = .binary rows ∧ ∀ fields texts,
      ToJson.process crates debug T args fields (blobInput rows) = .ok texts →
      ∃ lines, texts.column = .utf8 lines ∧ ∀ name, ∃ back,
        FromJson.process crates debug T (boundSchema name .binary) (textInput lines) = .ok back ∧
          back.column = .binary rows := by
  obtain ⟨rows, hrows, hcolumn, hfit⟩ := encode_eq_ok hblobs
  obtain ⟨cells, rfl⟩ : ∃ cells : List (Option (Bytes T)),
    cells.map (Option.map Bytes.data) = rows := exists_slices hfit
  have hcell : ∀ b : Bytes T, some b ∈ cells → ∃ row doc,
      valueAt crates floats col row = .ok (.document doc) ∧ decodeDocument crates b = .ok doc ∧
        crates.toWriter doc = .ok b.data ∧ returned crates (some b) = some b.data := by
    intro b hb
    obtain ⟨row, hrow⟩ := mapM_forall (P := fun cell => ∃ row,
      encodeDocument crates floats col row = .ok cell) (fun row cell h => ⟨row, h⟩) _ hrows _
      (List.mem_map_of_mem hb)
    exact ⟨row, returned_of_encoded hwrite hinsert hdepth (fun row doc h => (hdocs row doc h).1)
      hrow⟩
  have hall : (cells.map (textOf crates)).map
      (Option.bind · fun s => (fromJson crates s).toOption) =
        cells.map (Option.map Bytes.data) := by
    rw [List.map_map]
    apply List.map_congr_left
    intro cell hmem
    cases cell with
    | none => rfl
    | some b =>
      obtain ⟨row, doc, hread, hdecode, hwritten, hback⟩ := hcell b hmem
      refine (fromJson_textOf hshape ?_).trans hback
      intro b' hb' doc' hdoc'
      cases hb'
      rw [hdecode] at hdoc'
      cases hdoc'
      exact ⟨hwritten, (hdocs row _ hread).2⟩
  refine ⟨_, hcolumn, ?_⟩
  intro fields texts htexts
  obtain ⟨hlines, hroom⟩ := toJson_eq_ok hmode (blobCells_blobInput cells) htexts
  refine ⟨_, hlines, ?_⟩
  intro name
  rw [fromJson_textInput hroom, hall]
  exact binaryArray_of_fits hfit name

end Encoded

/-- The library of chains, with the writer and the insertion of the format. -/
noncomputable def structCrates : Crates :=
  { chainCrates with toWriter := formatCrates.toWriter, insert := insertField }

theorem undone_chain (n : ℕ) : Undone chainCrates (nestedDocument n) :=
  ⟨plainKeys_nestedDocument n, convertsBack_nestedDocument n, readsBack_nestedJson n⟩

theorem cells_chain :
    blobCells (fun _ => "Binary") .bits64 (oneBlob (chainBytes 1 (by decide)).data) =
      .ok [some (chainBytes 1 (by decide))] := rfl

theorem toJson_chain : ∃ texts, ToJson.process chainCrates (fun _ => "Binary") .bits64
    (fun _ => none) (boundSchema "json" .utf8) (oneBlob (chainBytes 1 (by decide)).data) =
      .ok texts := by
  have hmode : ToJson.mode (fun _ => none) = .ok .canonical := rfl
  have hmap : IsMap (ToJson.process chainCrates (fun _ => "Binary") .bits64 fun _ => none) .utf8
      (fun _ => "Binary") .bits64 (valueOf chainCrates (fun _ => none) .toJson) :=
    isMap_toJson hmode
  have hvalue : valueOf chainCrates (fun _ => none) .toJson (some (chainBytes 1 (by decide))) =
      .varchar "\x7b\"a\":\x7b\x7d\x7d" := by
    have hjson := toJson_of_decode (decode_chainBytes 1 (by decide)) .canonical
    simp only [valueOf, ofBlob, hmode, hjson]
    rfl
  have hfits : Fits [SqlValue.varchar "\x7b\"a\":\x7b\x7d\x7d"] :=
    ⟨by decide, by decide, by decide⟩
  obtain ⟨batch, hbatch, -⟩ :=
    (answers_of_isMap hmap cells_chain "json").batch (by rwa [List.map_singleton, hvalue])
  exact ⟨batch, hbatch⟩

theorem reversible_chain : Reversible chainCrates (some (chainBytes 1 (by decide))) := by
  intro b hb doc hdoc
  cases hb
  rw [decode_chainBytes] at hdoc
  cases hdoc
  exact ⟨rfl, undone_chain 1⟩

theorem json_columns_compose_chain : ∃ texts,
    ToJson.process chainCrates (fun _ => "Binary") .bits64 (fun _ => none)
      (boundSchema "json" .utf8) (oneBlob (chainBytes 1 (by decide)).data) = .ok texts ∧
    Decode.process chainCrates (fun _ => "Binary") .bits64 (boundSchema "json" .utf8)
      (oneBlob (chainBytes 1 (by decide)).data) = .ok texts ∧
    ∃ rows, texts.column = .utf8 rows ∧
      Answers (FromJson.process chainCrates (fun _ => "Binary") .bits64
        (boundSchema "bson" .binary) (textInput rows)) .binary
        [.blob (chainBytes 1 (by decide)).data] := by
  obtain ⟨texts, htexts⟩ := toJson_chain
  obtain ⟨hdecode, rows, backs, hrows, hcall, hbacks⟩ := json_columns_compose chainCrates
    convertsByShape_chainCrates (fun _ => "Binary") .bits64 (fun _ => none) rfl _ _ cells_chain _ _
    htexts "bson"
  refine ⟨texts, htexts, hdecode, rows, hrows, ?_⟩
  obtain ⟨back, _, hback, htail, rfl⟩ := List.forall₂_cons_left_iff.mp hbacks
  obtain rfl := List.forall₂_nil_left_iff.mp htail
  have hreturned : returned chainCrates (some (chainBytes 1 (by decide))) =
      some (chainBytes 1 (by decide)).data := by
    rw [returned_of_decode (decode_chainBytes 1 (by decide))]
    exact if_pos (by decide)
  rw [hback reversible_chain, hreturned] at hcall
  exact hcall

/-- Every row of the column is the chain. -/
theorem valueAt_structCrates (row : ℕ) :
    valueAt structCrates noFloats (nestedStruct 1) row = .ok (.document (nestedDocument 1)) := rfl

theorem encodeDocument_structCrates : encodeDocument structCrates noFloats (nestedStruct 1) 0 =
    .ok (some (documentBytes (nestedDocument 1))) := by
  have hs := storable_nestedDocument 1
  have hnul : KeysNulFree (.document (nestedDocument 1)) :=
    Throughout.combine (fun _ hd _ => hd.2) (fun _ _ _ => trivial) _ hs hs
  exact encodeDocument_of_writes rfl (valueAt_structCrates 0) (if_pos ⟨hnul, by decide⟩)

theorem encoded_columns_come_back_nestedStruct : ∃ blobs,
    Encode.process structCrates noFloats (boundSchema "bson" .binary) (nestedStruct 1) =
      .ok blobs ∧
    ∃ rows, blobs.column = .binary rows ∧ ∀ fields texts,
      ToJson.process structCrates (fun _ => "Binary") .bits64 (fun _ => none) fields
        (blobInput rows) = .ok texts →
      ∃ lines, texts.column = .utf8 lines ∧ ∀ name, ∃ back,
        FromJson.process structCrates (fun _ => "Binary") .bits64 (boundSchema name .binary)
          (textInput lines) = .ok back ∧ back.column = .binary rows := by
  have hrows : List.Forall₂
      (fun row cell => encodeDocument structCrates noFloats (nestedStruct 1) row = .ok cell)
      (List.range (nestedStruct 1).len) [some (documentBytes (nestedDocument 1))] :=
    .cons encodeDocument_structCrates .nil
  obtain ⟨blobs, hblobs, -⟩ := encode_rows hrows (by decide) "bson"
  refine ⟨blobs, hblobs, encoded_columns_come_back structCrates writesFormat_formatCrates
    insertReplaces_formatCrates ⟨convertsByShape_chainCrates.array,
      convertsByShape_chainCrates.document, convertsByShape_chainCrates.scope,
      convertsByShape_chainCrates.wrapper⟩ noFloats (nestedStruct 1) (by decide) ?_ _ _ hblobs
    (fun _ => "Binary") .bits64 (fun _ => none) rfl⟩
  intro row doc hdoc
  rw [valueAt_structCrates] at hdoc
  cases hdoc
  have hread := ((decodeDocument_eq_ok_iff _).mp (decode_chainBytes 1 (by decide))).2
  obtain ⟨hkeys, hback, hreads⟩ := undone_chain 1
  exact ⟨hread, hkeys, hback, hreads⟩

end VgiBson.JsonColumns
