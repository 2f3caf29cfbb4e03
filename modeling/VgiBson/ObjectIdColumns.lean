import VgiBson.ScalarCalls

/-! # Columns of object ids

Text and bytes are two columns of the same ids, and both have the creation times that the ids hold,
exactly and in the order of the ids. -/

namespace VgiBson.ObjectIdColumns

open MachineBytes CursorWalks ArrowColumns BsonValues DocumentDecoding ColumnEncoding
  ReplicationClock HexText ObjectIds ScalarColumns ScalarFunctions ScalarRows ScalarCalls

variable {T : Target} {crates : Crates} {oids : OidCrate} {debug : ArrayRef → String}

/-- The creation time of an id in microseconds, as a column holds it. -/
def created (oids : OidCrate) (oid : ObjectId) : Int64 :=
  saturatingMul (objectidEpochMillis oids oid) 1000

theorem secondsOf_lt (oid : ObjectId) : secondsOf oid < 2 ^ 32 := by
  have hlt := ofBytes_lt (oid.toList.take 4)
  have hlen : (oid.toList.take 4).length = 4 := by simp
  rw [hlen] at hlt
  exact hlt

/-- No time is too late for the column. -/
theorem toInt_created (hseconds : ReadsSeconds oids) (oid : ObjectId) :
    (created oids oid).toInt = 1000000 * secondsOf oid := by
  have hlt := secondsOf_lt oid
  have hmillis : (objectidEpochMillis oids oid).toInt = 1000 * secondsOf oid := hseconds oid
  have hfactor : (1000 : Int64).toInt = 1000 := rfl
  rw [created, toInt_saturatingMul]
  · rw [hmillis, hfactor]
    omega
  · rw [hmillis, hfactor]
    omega
  · rw [hmillis, hfactor]
    omega

/-- Ids that sort later were created later. -/
theorem secondsOf_mono {oid oid' : ObjectId} (h : oid.toList ≤ oid'.toList) :
    secondsOf oid ≤ secondsOf oid' := by
  have hlen : oid.toList.length = oid'.toList.length := by simp
  rw [secondsOf, secondsOf, ofBytes_take, ofBytes_take, List.length_drop, List.length_drop, hlen]
  exact Nat.div_le_div_right (ofBytes_mono hlen h)

/-- A column of results as the next function gets it. -/
def textInput (rows : List (Option String)) : ArrayRef :=
  .scalar .utf8 (some (rows.map Option.isSome)) (rows.map (·.getD ""))

theorem len_textInput (rows : List (Option String)) : (textInput rows).len = rows.length :=
  List.length_map _

theorem textStr_textInput (rows : List (Option String)) {i : ℕ} {text : Option String}
    (h : rows[i]? = some text) : textStr debug (textInput rows) i = .ok text := by
  have hmask : (rows.map Option.isSome)[i]? = some text.isSome := by
    rw [List.getElem?_map, h, Option.map_some]
  have hvalue : (rows.map (·.getD ""))[i]? = some (text.getD "") := by
    rw [List.getElem?_map, h, Option.map_some]
  cases text with
  | none =>
    rw [textStr, textInput, ArrayRef.nulls, isNull, element, hmask]
    rfl
  | some s =>
    rw [textStr, textInput, ArrayRef.nulls, isNull, element, hmask]
    change some <$> element (rows.map (·.getD "")) i = _
    rw [element, hvalue]
    rfl

/-- A loop over the rows of a column that reads each entry of a list. -/
theorem mapM_range_eq {ε β : Type} {read : ℕ → Outcome ε β} {l : List β} {n : ℕ}
    (hlen : n = l.length) (h : ∀ i b, l[i]? = some b → read i = .ok b) :
    (List.range n).mapM read = .ok l := by
  subst hlen
  rw [mapM_eq_ok_iff, List.forall₂_iff_get]
  refine ⟨List.length_range, ?_⟩
  intro i hi hi'
  simp only [List.get_eq_getElem, List.getElem_range]
  exact h i _ (List.getElem?_eq_getElem hi')

theorem texts_textInput (rows : List (Option String)) :
    (List.range (textInput rows).len).mapM (textStr debug (textInput rows)) = .ok rows :=
  mapM_range_eq (len_textInput rows) fun _ _ => textStr_textInput rows

/-- The creation time of an id given as text or as bytes, in milliseconds. -/
def millisOf (oids : OidCrate) (text : Option String) (cell : Option (Bytes T)) : Option Int64 :=
  (parseObjectidAny oids text cell).map (objectidEpochMillis oids)

theorem objectIdFromHex_textInput (schema : List ResultField) (rows : List (Option String)) :
    ObjectIdFromHex.process oids debug schema (textInput rows) =
      binaryArray (rows.map (Option.bind · fun s => (objectidFromHex oids s).toOption)) >>=
        respond schema := by
  rw [ObjectIdFromHex.process, mapM_pure_right (fun _ => rfl), texts_textInput]
  rfl

theorem objectIdTimestamp_textInput (schema : List ResultField) (rows : List (Option String)) :
    ObjectIdTimestamp.process oids debug T schema (textInput rows) = respond schema
      (.clock (tsMillisArray
        (rows.map fun text => millisOf oids text (none : Option (Bytes T))))) := by
  have hread (i : ℕ) : (do
      let oid ← ObjectIdTimestamp.cell oids debug T (textInput rows) i
      pure (oid.map (objectidEpochMillis oids)) : Outcome RpcError _) =
      textStr debug (textInput rows) i >>= fun text =>
        pure (millisOf oids text (none : Option (Bytes T))) := by
    have hkind : isText (textInput rows) = true := rfl
    rw [ObjectIdTimestamp.cell, if_pos hkind, bind_assoc]
    rfl
  rw [ObjectIdTimestamp.process, mapM_pure_right hread, texts_textInput]
  rfl

theorem objectIdTimestamp_cells {col : ArrayRef} {cells : List (Option (Bytes T))}
    (hcells : blobCells debug T col = .ok cells) (htext : isText col = false)
    (schema : List ResultField) : ObjectIdTimestamp.process oids debug T schema col =
      respond schema (.clock (tsMillisArray (cells.map (millisOf oids none)))) := by
  have hread (i : ℕ) : (do
      let oid ← ObjectIdTimestamp.cell oids debug T col i
      pure (oid.map (objectidEpochMillis oids)) : Outcome RpcError _) =
      blobBytes debug T col i >>= fun cell => pure (millisOf oids none cell) := by
    rw [ObjectIdTimestamp.cell, if_neg (by simp [htext]), bind_assoc]
    rfl
  rw [blobCells] at hcells
  rw [ObjectIdTimestamp.process, mapM_pure_right hread, hcells]
  rfl

/-- The id in a cell of twelve bytes. -/
def idOf (cell : Option (Bytes T)) : Option ObjectId := cell.bind fun b => tryInto b.data

/-- The ids of a column as bytes. -/
def idBytes (cells : List (Option (Bytes T))) : List (Option (List UInt8)) :=
  cells.map fun cell => (idOf cell).map Vector.toList

/-- The text of the id in a cell. -/
def hexOf (cell : Option (Bytes T)) : Option String :=
  (idOf cell).map fun oid => String.ofList (encode oid.toList)

theorem toOption_objectidHex (hwrites : WritesHex crates) (cell : Option (Bytes T)) :
    (cell.bind fun b => (objectidHex crates b).toOption) = hexOf cell := by
  cases cell with
  | none => rfl
  | some b =>
    change (objectidHex crates b).toOption =
      (tryInto b.data).map fun oid => String.ofList (encode oid.toList)
    rw [objectidHex]
    cases tryInto b.data with
    | none => rfl
    | some oid => exact congrArg some (hwrites oid)

theorem trim_encode (bytes : List UInt8) :
    trim (String.ofList (encode bytes)) = String.ofList (encode bytes) :=
  trim_of_forall (forall_mem_encode digit_not_whitespace bytes)

/-- An id is read back from its text. -/
theorem parseStr_encode (hparses : ParsesHex oids) (oid : ObjectId) :
    oids.parseStr (trim (String.ofList (encode oid.toList))) = some oid := by
  rw [trim_encode, hparses, String.toList_ofList, decode_encode, Option.bind_some]
  exact tryInto_eq_some_iff.mpr rfl

theorem objectidFromHex_hexOf (hparses : ParsesHex oids) (cell : Option (Bytes T)) :
    ((hexOf cell).bind fun s => (objectidFromHex oids s).toOption) =
      (idOf cell).map Vector.toList := by
  rw [hexOf]
  cases idOf cell with
  | none => rfl
  | some oid =>
    rw [Option.map_some, Option.bind_some, objectidFromHex, parseStr_encode hparses]
    rfl

theorem parseObjectidAny_cell (cell : Option (Bytes T)) :
    parseObjectidAny oids none cell = idOf cell := by
  cases cell <;> rfl

theorem parseObjectidAny_hexOf (hparses : ParsesHex oids) (cell : Option (Bytes T)) :
    parseObjectidAny oids (hexOf cell) (none : Option (Bytes T)) =
      parseObjectidAny oids none cell := by
  rw [parseObjectidAny_cell, hexOf]
  cases idOf cell with
  | none => rfl
  | some oid => exact parseStr_encode hparses oid

/-- The bytes of an id take half the room of its text. -/
theorem sum_blobSize_le (cells : List (Option (Bytes T))) :
    ((idBytes cells).map blobSize).sum ≤ ((cells.map hexOf).map textSize).sum := by
  rw [idBytes, List.map_map, List.map_map]
  apply List.sum_le_sum
  intro cell _
  rw [Function.comp_apply, Function.comp_apply, hexOf]
  cases idOf cell with
  | none => exact Nat.le_refl _
  | some oid =>
    have hascii : ∀ c ∈ encode oid.toList, c.toNat < 128 := forall_mem_encode digit_ascii _
    have htext : (utf8 (String.ofList (encode oid.toList))).length = 2 * oid.toList.length := by
      rw [utf8_ascii hascii, List.length_map, length_encode]
    change oid.toList.length ≤ (utf8 (String.ofList (encode oid.toList))).length
    omega

/-- Every text of a column of ids is turned back into the bytes of the id. -/
theorem fromHex_of_hex (hparses : ParsesHex oids) (name : String)
    {cells : List (Option (Bytes T))}
    (hfit : ((cells.map hexOf).map textSize).sum ≤ maxOffset) :
    ∃ batch, ObjectIdFromHex.process oids debug (boundSchema name .binary)
        (textInput (cells.map hexOf)) = .ok batch ∧
      values batch.column = (idBytes cells).map (nullOr .blob) := by
  have hids : (cells.map hexOf).map (Option.bind · fun s => (objectidFromHex oids s).toOption) =
      idBytes cells := by
    rw [idBytes, List.map_map]
    exact List.map_congr_left fun cell _ => objectidFromHex_hexOf hparses cell
  obtain ⟨batch, hbatch, hcolumn⟩ :=
    binaryArray_of_fits ((sum_blobSize_le cells).trans hfit) name
  refine ⟨batch, ?_, by rw [hcolumn, values]⟩
  rw [objectIdFromHex_textInput, hids]
  exact hbatch

/-- Text and bytes of the same ids have the same times. -/
theorem timestamp_of_hex (hparses : ParsesHex oids) {col : ArrayRef}
    {cells : List (Option (Bytes T))} (hcells : blobCells debug T col = .ok cells)
    (htext : isText col = false) (schema : List ResultField) :
    ObjectIdTimestamp.process oids debug T schema (textInput (cells.map hexOf)) =
      ObjectIdTimestamp.process oids debug T schema col := by
  rw [objectIdTimestamp_textInput, objectIdTimestamp_cells hcells htext, List.map_map]
  congr 4
  funext cell
  rw [Function.comp_apply, millisOf, millisOf, parseObjectidAny_hexOf hparses]

theorem timestamp_of_cells {col : ArrayRef} {cells : List (Option (Bytes T))}
    (hcells : blobCells debug T col = .ok cells) (htext : isText col = false) (name : String) :
    ∃ batch, ObjectIdTimestamp.process oids debug T (boundSchema name (.clock .timestamptz)) col =
        .ok batch ∧ values batch.column =
        cells.map fun cell => nullOr .timestamptz ((idOf cell).map (created oids)) := by
  obtain ⟨batch, hbatch, hcolumn⟩ := respond_boundSchema name
    (c := .clock (tsMillisArray (cells.map (millisOf oids none)))) rfl
  refine ⟨batch, ?_, ?_⟩
  · rw [objectIdTimestamp_cells hcells htext]
    exact hbatch
  · rw [hcolumn, tsMillisArray, values, List.map_map, List.map_map]
    apply List.map_congr_left
    intro cell _
    rw [Function.comp_apply, millisOf, parseObjectidAny_cell]
    cases idOf cell <;> rfl

theorem hex_of_cells (hwrites : WritesHex crates) {col : ArrayRef}
    {cells : List (Option (Bytes T))} (hcells : blobCells debug T col = .ok cells) {name : String}
    {batch : ResultBatch}
    (h : ObjectIdHex.process crates debug T (boundSchema name .utf8) col = .ok batch) :
    batch.column = .utf8 (cells.map hexOf) ∧
      ((cells.map hexOf).map textSize).sum ≤ maxOffset := by
  have hrows : cells.map (Option.bind · fun b => (objectidHex crates b).toOption) =
      cells.map hexOf :=
    List.map_congr_left fun cell _ => toOption_objectidHex hwrites cell
  have hread : mapBlobs debug T (fun b => pure (objectidHex crates b).toOption) col =
      .ok (cells.map (Option.bind · fun b => (objectidHex crates b).toOption)) := by
    refine (mapBlobs_eq (fun _ => rfl) col).trans ?_
    rw [hcells]
    rfl
  rw [ObjectIdHex.process, hread, hrows] at h
  exact built_eq_ok h

/-- Text and bytes are two columns of the same ids: the hexadecimal column of a column of bytes
is turned back into its ids, every other cell being null, and has the same creation times, which
are exact to the second and in the order of the ids. -/
theorem objectid_columns_compose (crates : Crates) (oids : OidCrate) (hwrites : WritesHex crates)
    (hparses : ParsesHex oids) (hseconds : ReadsSeconds oids) (debug : ArrayRef → String)
    (T : Target) (name : String) (col : ArrayRef) (cells : List (Option (Bytes T)))
    (hcells : blobCells debug T col = .ok cells) (htext : isText col = false) :
    (∀ batch, ObjectIdHex.process crates debug T (boundSchema name .utf8) col = .ok batch →
      ∃ rows, batch.column = .utf8 rows ∧
        (∃ ids, ObjectIdFromHex.process oids debug (boundSchema name .binary) (textInput rows) =
            .ok ids ∧
          values ids.column = (idBytes cells).map (nullOr .blob)) ∧
        ObjectIdTimestamp.process oids debug T (boundSchema name (.clock .timestamptz))
            (textInput rows) =
          ObjectIdTimestamp.process oids debug T (boundSchema name (.clock .timestamptz)) col) ∧
    (∃ times, ObjectIdTimestamp.process oids debug T (boundSchema name (.clock .timestamptz)) col =
        .ok times ∧ values times.column =
        cells.map fun cell => nullOr .timestamptz ((idOf cell).map (created oids))) ∧
    (∀ oid, (created oids oid).toInt = 1000000 * secondsOf oid) ∧
    ∀ oid oid' : ObjectId, oid.toList ≤ oid'.toList →
      (created oids oid).toInt ≤ (created oids oid').toInt := by
  refine ⟨?_, timestamp_of_cells hcells htext name, toInt_created hseconds, ?_⟩
  · intro batch hbatch
    obtain ⟨hrows, hfit⟩ := hex_of_cells hwrites hcells hbatch
    exact ⟨_, hrows, fromHex_of_hex hparses name hfit, timestamp_of_hex hparses hcells htext _⟩
  · intro oid oid' h
    have hle := secondsOf_mono h
    rw [toInt_created hseconds, toInt_created hseconds]
    omega

theorem objectid_columns_compose_firstId : ∃ times,
    ObjectIdTimestamp.process hexOids (fun _ => "Binary") .bits64
      (boundSchema "created" (.clock .timestamptz)) (oneBlob firstId.data) = .ok times ∧
    values times.column = [some firstId].map fun cell =>
      nullOr .timestamptz ((idOf cell).map (created hexOids)) :=
  (objectid_columns_compose hexCrates hexOids (fun _ => rfl) (fun _ => rfl) readsSeconds_hexOids
    (fun _ => "Binary") .bits64 "created" (oneBlob firstId.data) [some firstId] rfl rfl).2.1

end VgiBson.ObjectIdColumns
