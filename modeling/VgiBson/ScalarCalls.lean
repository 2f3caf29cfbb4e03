import VgiBson.ClockDelivery
import VgiBson.ScalarRows

/-! # Calls of scalar functions

What a bound call returns on a column, how results of the pieces of a column fit together, and which
arguments bind at all. -/

namespace VgiBson.ScalarCalls

open MachineBytes CursorWalks CursorBounds StructuralValidator ArrowColumns DocumentDecoding
  FieldProjection ColumnEncoding ObjectIds DottedPaths ProjectedKeys ScalarColumns ScalarFunctions
  ScalarRows
open ClockDelivery (Masked)

variable {T : Target} {crates : Crates} {debug : ArrayRef → String}

/-- The bytes in a slot of text or bytes. -/
def rawBytes : ArrayRef → ℕ → Option (List UInt8)
  | .scalar .binary _ values, row => values[row]?
  | .scalar .largeBinary _ values, row => values[row]?
  | .scalar .utf8 _ values, row => values[row]?.map utf8
  | .scalar .largeUtf8 _ values, row => values[row]?.map utf8
  | _, _ => none

def IsBlob : ArrayRef → Prop
  | .scalar .binary _ _ | .scalar .largeBinary _ _ => True
  | .scalar .utf8 _ _ | .scalar .largeUtf8 _ _ => True
  | _ => False

/-- The column is of bytes or text, or nothing is read from it. -/
def Readable (col : ArrayRef) : Prop := IsBlob col ∨ ∀ row < col.len, ¬ IsValid col.nulls row

/-- Every value of the column is a slice in memory. -/
def InMemory (T : Target) (col : ArrayRef) : Prop :=
  ∀ row bytes, rawBytes col row = some bytes → bytes.length ≤ T.isizeMax

/-- The cells of a column, and the bytes they hold. -/
def HasCells (col : ArrayRef) (cells : List (Option (Bytes T))) : Prop :=
  cells.length = col.len ∧ ∀ row cell, cells[row]? = some cell →
    (¬ IsValid col.nulls row ∧ cell = none) ∨
      (IsValid col.nulls row ∧ ∃ b : Bytes T, cell = some b ∧ rawBytes col row = some b.data)

/-- The error on a column of another type. -/
def typeError (debug : ArrayRef → String) (col : ArrayRef) : Stop RpcError :=
  .error (.valueError ("expected a BLOB or VARCHAR argument, got " ++ debug col))

theorem blobBytes_of_null {col : ArrayRef} {row : ℕ}
    (h : (isNull col.nulls row : Outcome RpcError Bool) = .ok true) :
    blobBytes debug T col row = .ok none := by
  rw [blobBytes, h]
  rfl

theorem blobBytes_of_valid {col : ArrayRef} {row : ℕ} (h : IsValid col.nulls row) :
    blobBytes debug T col row = some <$> blobValue debug T col row := by
  rw [blobBytes, isNull_of_isValid h]
  rfl

theorem exists_blobValue {col : ArrayRef} (hmem : InMemory T col) (hblob : IsBlob col) {row : ℕ}
    (hrow : row < col.len) :
    ∃ b : Bytes T, blobValue debug T col row = .ok b ∧ rawBytes col row = some b.data := by
  have hslice {bytes : List UInt8} (hb : rawBytes col row = some bytes) :
      ∃ b : Bytes T, (slice T bytes : Outcome RpcError _) = .ok b ∧ b.data = bytes :=
    ⟨⟨bytes, hmem row bytes hb⟩, dif_pos (hmem row bytes hb), rfl⟩
  cases col with
  | scalar ty nulls values =>
    have hget : values[row]? = some values[row] := List.getElem?_eq_getElem hrow
    have hread : (element values row : Outcome RpcError ty.Value) = .ok values[row] := by
      rw [element, hget]
    cases ty with
    | binary | largeBinary =>
      obtain ⟨b, hb, hdata⟩ := hslice hget
      refine ⟨b, ?_, hdata ▸ hget⟩
      rw [blobValue, hread]
      exact hb
    | utf8 | largeUtf8 =>
      have hraw : values[row]?.map utf8 = some (utf8 values[row]) := by rw [hget, Option.map_some]
      obtain ⟨b, hb, hdata⟩ := hslice hraw
      refine ⟨b, ?_, hdata ▸ hraw⟩
      rw [blobValue, hread]
      exact hb
    | _ => cases hblob
  | _ => cases hblob

theorem blobValue_of_other {col : ArrayRef} (hblob : ¬ IsBlob col) (row : ℕ) :
    blobValue debug T col row = .error (typeError debug col) := by
  cases col with
  | scalar ty nulls values =>
    cases ty with
    | binary | largeBinary | utf8 | largeUtf8 => exact absurd trivial hblob
    | _ => rfl
  | _ => rfl

/-- A column that can be read gives its cells. -/
theorem exists_blobCells {col : ArrayRef} (hmask : Masked col) (hmem : InMemory T col)
    (h : Readable col) : ∃ cells : List (Option (Bytes T)),
      blobCells debug T col = .ok cells ∧ HasCells col cells := by
  have hcell : ∀ row < col.len, ∃ cell, blobBytes debug T col row = .ok cell ∧
      ((¬ IsValid col.nulls row ∧ cell = none) ∨ (IsValid col.nulls row ∧
        ∃ b : Bytes T, cell = some b ∧ rawBytes col row = some b.data)) := by
    intro row hrow
    rcases hmask.isNull_cases (ε := RpcError) hrow with ⟨hnull, hvalid⟩ | ⟨-, hvalid⟩
    · exact ⟨none, blobBytes_of_null hnull, .inl ⟨hvalid, rfl⟩⟩
    · have hblob : IsBlob col := h.resolve_right fun hnone => hnone row hrow hvalid
      obtain ⟨b, hb, hraw⟩ : ∃ b : Bytes T, blobValue debug T col row = .ok b ∧
        rawBytes col row = some b.data := exists_blobValue hmem hblob hrow
      refine ⟨some b, ?_, .inr ⟨hvalid, b, rfl, hraw⟩⟩
      rw [blobBytes_of_valid hvalid, hb]
      rfl
  obtain ⟨cells, hcells⟩ := exists_mapM (f := blobBytes debug T col) (l := List.range col.len)
    fun row hrow => (hcell row (List.mem_range.mp hrow)).imp fun _ h => h.1
  have hlen : cells.length = col.len := by
    rw [← (mapM_eq_ok_iff.mp hcells).length_eq, List.length_range]
  refine ⟨cells, hcells, hlen, ?_⟩
  intro row cell hrow
  have hlt : row < col.len := hlen ▸ (List.getElem?_eq_some_iff.mp hrow).1
  obtain ⟨cell', hread, hcell'⟩ := hcell row hlt
  rw [ClockDelivery.getElem?_of_mapM_range hcells hlt hread] at hrow
  obtain rfl := Option.some.inj hrow
  exact hcell'

/-- A column of another type is refused at its first row that is not null. -/
theorem blobCells_of_not_readable {col : ArrayRef} (hmask : Masked col) (h : ¬ Readable col) :
    blobCells debug T col = .error (typeError debug col) := by
  rw [Readable, not_or] at h
  obtain ⟨hblob, hvalid⟩ := h
  push Not at hvalid
  obtain ⟨row, hrow, hrowvalid⟩ := hvalid
  have hread : ∀ row, IsValid col.nulls row →
      blobBytes debug T col row = .error (typeError debug col) := by
    intro row hvalid
    rw [blobBytes_of_valid hvalid, blobValue_of_other hblob]
    rfl
  apply mapM_eq_error
  · intro row hrow
    rcases hmask.isNull_cases (ε := RpcError) (List.mem_range.mp hrow) with ⟨hnull, -⟩ | ⟨-, hvalid⟩
    · exact .inl ⟨none, blobBytes_of_null hnull⟩
    · exact .inr (hread row hvalid)
  · exact ⟨row, List.mem_range.mpr hrow, hread row hrowvalid⟩

/-- The schema that the engine makes of the type a function binds to. -/
def boundSchema (name : String) (ty : ResultType) : List ResultField := [⟨name, ty, true⟩]

theorem respond_boundSchema (name : String) {ty : ResultType} {c : ResultColumn}
    (h : c.dataType = ty) :
    ∃ batch, respond (boundSchema name ty) c = .ok batch ∧ batch.column = c := by
  subst h
  refine ⟨⟨boundSchema name c.dataType, c, rfl⟩, ?_, rfl⟩
  have hnew : ResultBatch.tryNew (boundSchema name c.dataType) c =
      .ok ⟨boundSchema name c.dataType, c, rfl⟩ := dif_pos rfl
  rw [respond, hnew]
  rfl

theorem respond_eq_ok {fields : List ResultField} {arr : ResultColumn} {batch : ResultBatch}
    (h : respond fields arr = .ok batch) : batch.column = arr := by
  rw [respond, ResultBatch.tryNew] at h
  split at h
  · cases h
  · split at h
    · cases h
    · split at h <;> cases h
      rfl

/-- An answer of bytes or text has all its rows, and they could be addressed. -/
theorem built_eq_ok {α : Type} {size : α → ℕ} {column : List α → ResultColumn} {rows : List α}
    {fields : List ResultField} {batch : ResultBatch}
    (h : column <$> buildBytes size rows >>= respond fields = .ok batch) :
    batch.column = column rows ∧ (rows.map size).sum ≤ maxOffset := by
  rw [buildBytes_eq] at h
  split at h
  · next hfit => exact ⟨respond_eq_ok h, hfit⟩
  · cases h

theorem binaryArray_of_fits {rows : List (Option (List UInt8))}
    (hfit : (rows.map blobSize).sum ≤ maxOffset) (name : String) :
    ∃ batch, (binaryArray rows : Outcome RpcError _) >>= respond (boundSchema name .binary) =
      .ok batch ∧ batch.column = .binary rows := by
  rw [binaryArray, buildBytes_eq, if_pos hfit]
  exact respond_boundSchema name (c := .binary rows) rfl

/-- What a call returns on the cells of a column: the values of a batch of the bound type, or a
panic when they cannot be addressed. -/
structure Answers (call : Outcome RpcError ResultBatch) (ty : ResultType) (vs : List SqlValue) :
    Prop where
  batch : Fits vs → ∃ batch, call = .ok batch ∧ batch.column.dataType = ty ∧
    values batch.column = vs
  overflow : ¬ Fits vs → call = .error .panic

/-- A column that is built is answered with. -/
theorem answers_of_built {arr : Outcome RpcError ResultColumn} {ty : ResultType}
    {vs : List SqlValue} (h : Built arr ty vs) (name : String) :
    Answers (arr >>= respond (boundSchema name ty)) ty vs := by
  constructor
  · intro hfits
    obtain ⟨c, hc, htype, hvalues⟩ := h.column hfits
    obtain ⟨batch, hbatch, hcolumn⟩ := respond_boundSchema name htype
    refine ⟨batch, ?_, hcolumn ▸ htype, hcolumn ▸ hvalues⟩
    rw [hc]
    exact hbatch
  · intro hfits
    rw [h.overflow hfits]
    rfl

theorem answers_of_isMap {process : List ResultField → ArrayRef → Outcome RpcError ResultBatch}
    {ty : ResultType} {value : Option (Bytes T) → SqlValue} (h : IsMap process ty debug T value)
    {col : ArrayRef} {cells : List (Option (Bytes T))} (hcells : blobCells debug T col = .ok cells)
    (name : String) : Answers (process (boundSchema name ty) col) ty (cells.map value) := by
  obtain ⟨arr, hprocess, hbuilt⟩ := h
  rw [hprocess, hcells]
  exact answers_of_built (hbuilt cells) name

/-- A bound call maps its column: on a column of bytes or text it answers with what the function
makes of each cell, in a batch of the type that was bound, unless the result needs offsets past 32
bits; on any other column with a value it reports the type of the column. -/
theorem bound_call_maps_column (crates : Crates) (hhex : HexEncodes crates)
    (debug : ArrayRef → String) (T : Target) (f : BlobFunction) (args : Arguments) (ty : ResultType)
    (hbind : f.onBind args = .ok ty) (hpath : f = .field → args 1 ≠ none) (col : ArrayRef)
    (hmask : Masked col) (hmem : InMemory T col) (name : String) :
    (Readable col → ∃ cells : List (Option (Bytes T)), HasCells col cells ∧
      Answers (f.process crates debug T args (boundSchema name ty) col) ty
        (cells.map (valueOf crates args f))) ∧
    (¬ Readable col → f.process crates debug T args (boundSchema name ty) col =
      .error (typeError debug col)) := by
  have hmap : IsMap (f.process crates debug T args) ty debug T (valueOf crates args f) :=
    isMap_process hhex hbind hpath
  constructor
  · intro h
    obtain ⟨cells, hcells, hhas⟩ : ∃ cells : List (Option (Bytes T)),
      blobCells debug T col = .ok cells ∧ HasCells col cells := exists_blobCells hmask hmem h
    exact ⟨cells, hhas, answers_of_isMap hmap hcells name⟩
  · intro h
    obtain ⟨arr, hprocess, -⟩ := hmap
    rw [hprocess, blobCells_of_not_readable hmask h]
    rfl

/-- One row of a blob. -/
def oneBlob (bytes : List UInt8) : ArrayRef := .scalar .binary none [bytes]

theorem inMemory_oneBlob {bytes : List UInt8} (h : bytes.length ≤ T.isizeMax) :
    InMemory T (oneBlob bytes) := by
  intro row bytes' hrow
  cases row with
  | zero =>
    cases hrow
    exact h
  | succ row => cases hrow

theorem bound_call_maps_column_oneBlob : ∃ cells : List (Option (Bytes .bits64)),
    HasCells (oneBlob [5, 0, 0, 0, 0]) cells ∧
      Answers (BlobFunction.process (knownCrates plainDocument) (fun _ => "Binary") .bits64
          (fun _ => none) .isValid (boundSchema "ok" .boolean) (oneBlob [5, 0, 0, 0, 0])) .boolean
        (cells.map (valueOf (knownCrates plainDocument) (fun _ => none) .isValid)) :=
  (bound_call_maps_column (knownCrates plainDocument) (hexEncodes_knownCrates _)
    (fun _ => "Binary") .bits64 .isValid (fun _ => none) .boolean rfl (fun h => by cases h)
    (oneBlob [5, 0, 0, 0, 0]) (ClockDelivery.masked_of_none rfl) (inMemory_oneBlob (by decide))
    "ok").1 (.inl trivial)

theorem fits_of_append {vs ws : List SqlValue} (h : Fits (vs ++ ws)) : Fits vs ∧ Fits ws := by
  obtain ⟨hdata, hkinds, hitems⟩ := h
  simp only [List.map_append, List.sum_append] at hdata hkinds hitems
  constructor
  · constructor <;> omega
  · constructor <;> omega

/-- Columns whose cells are those of the pieces, one after the other. -/
def Pieces (debug : ArrayRef → String) (T : Target) (cols : List ArrayRef)
    (parts : List (List (Option (Bytes T)))) : Prop :=
  List.Forall₂ (fun col cells => blobCells debug T col = .ok cells) cols parts

theorem batches_of_pieces {process : List ResultField → ArrayRef → Outcome RpcError ResultBatch}
    {ty : ResultType} {value : Option (Bytes T) → SqlValue} (h : IsMap process ty debug T value)
    {cols : List ArrayRef} {parts : List (List (Option (Bytes T)))}
    (hpieces : Pieces debug T cols parts) (hfits : Fits (parts.flatten.map value)) (name : String) :
    ∃ batches, cols.mapM (process (boundSchema name ty)) = .ok batches ∧
      batches.flatMap (values ·.column) = parts.flatten.map value := by
  induction hpieces with
  | nil => exact ⟨[], rfl, rfl⟩
  | @cons col cells cols parts hcells hrest ih =>
    rw [List.flatten_cons, List.map_append] at hfits ⊢
    obtain ⟨hfirst, hothers⟩ := fits_of_append hfits
    obtain ⟨batch, hbatch, -, hvalues⟩ := (answers_of_isMap h hcells name).batch hfirst
    obtain ⟨batches, hbatches, hall⟩ := ih hothers
    refine ⟨batch :: batches, ?_, ?_⟩
    · rw [List.mapM_cons, hbatch, hbatches]
      rfl
    · rw [List.flatMap_cons, hvalues, hall]

theorem values_of_pieces {process : List ResultField → ArrayRef → Outcome RpcError ResultBatch}
    {ty : ResultType} {value : Option (Bytes T) → SqlValue} (h : IsMap process ty debug T value)
    {cols : List ArrayRef} {parts : List (List (Option (Bytes T)))}
    (hpieces : Pieces debug T cols parts) {name : String} {batches : List ResultBatch}
    (hcalls : cols.mapM (process (boundSchema name ty)) = .ok batches) :
    batches.flatMap (values ·.column) = parts.flatten.map value := by
  induction hpieces generalizing batches with
  | nil =>
    cases hcalls
    rfl
  | @cons col cells cols parts hcells hrest ih =>
    rw [List.mapM_cons] at hcalls
    obtain ⟨batch, hbatch, hcalls⟩ := bind_eq_ok_iff.mp hcalls
    obtain ⟨batches', hbatches, hcalls⟩ := bind_eq_ok_iff.mp hcalls
    cases hcalls
    have hanswers := answers_of_isMap h hcells name
    have hfits : Fits (cells.map value) := by
      by_contra hfits
      rw [hanswers.overflow hfits] at hbatch
      cases hbatch
    obtain ⟨batch', hbatch', -, hvalues⟩ := hanswers.batch hfits
    rw [hbatch] at hbatch'
    obtain rfl := Except.ok.inj hbatch'
    rw [List.flatMap_cons, hvalues, ih hbatches, List.flatten_cons, List.map_append]

/-- How the engine cuts a column does not matter: a call on the whole column and calls on its
pieces give the same rows in the same order. If the whole call returns, so do all the others; if
those return, the whole call does too or runs out of offsets. -/
theorem pieces_agree (crates : Crates) (hhex : HexEncodes crates) (debug : ArrayRef → String)
    (T : Target) (f : BlobFunction) (args : Arguments) (ty : ResultType)
    (hbind : f.onBind args = .ok ty) (hpath : f = .field → args 1 ≠ none) (name : String)
    (col : ArrayRef) (cols : List ArrayRef) (parts : List (List (Option (Bytes T))))
    (hcol : blobCells debug T col = .ok parts.flatten) (hcols : Pieces debug T cols parts) :
    (∀ batch, f.process crates debug T args (boundSchema name ty) col = .ok batch →
      ∃ batches, cols.mapM (f.process crates debug T args (boundSchema name ty)) = .ok batches ∧
        values batch.column = batches.flatMap (values ·.column)) ∧
    ∀ batches, cols.mapM (f.process crates debug T args (boundSchema name ty)) = .ok batches →
      f.process crates debug T args (boundSchema name ty) col = .error .panic ∨
        ∃ batch, f.process crates debug T args (boundSchema name ty) col = .ok batch ∧
          values batch.column = batches.flatMap (values ·.column) := by
  have hmap : IsMap (f.process crates debug T args) ty debug T (valueOf crates args f) :=
    isMap_process hhex hbind hpath
  have hanswers := answers_of_isMap hmap hcol name
  constructor
  · intro batch hbatch
    have hfits : Fits (parts.flatten.map (valueOf crates args f)) := by
      by_contra hfits
      rw [hanswers.overflow hfits] at hbatch
      cases hbatch
    obtain ⟨batch', hbatch', -, hvalues⟩ := hanswers.batch hfits
    rw [hbatch] at hbatch'
    obtain rfl := Except.ok.inj hbatch'
    obtain ⟨batches, hbatches, hall⟩ := batches_of_pieces hmap hcols hfits name
    exact ⟨batches, hbatches, hvalues.trans hall.symm⟩
  · intro batches hbatches
    have hall := values_of_pieces hmap hcols hbatches
    by_cases hfits : Fits (parts.flatten.map (valueOf crates args f))
    · obtain ⟨batch, hbatch, -, hvalues⟩ := hanswers.batch hfits
      exact .inr ⟨batch, hbatch, hvalues.trans hall.symm⟩
    · exact .inl (hanswers.overflow hfits)

/-- `is_valid` on a column of two blobs. -/
def twoBlobs : ArrayRef := .scalar .binary none [[5, 0, 0, 0, 0], []]

noncomputable abbrev callIsValid : ArrayRef → Outcome RpcError ResultBatch :=
  BlobFunction.process (knownCrates plainDocument) (fun _ => "Binary") .bits64 (fun _ => none)
    .isValid (boundSchema "ok" .boolean)

theorem cells_twoBlobs : blobCells (fun _ => "Binary") .bits64 twoBlobs =
    .ok [some ⟨[5, 0, 0, 0, 0], by decide⟩, some ⟨[], by decide⟩] := rfl

theorem isValid_twoBlobs : ∃ batch, callIsValid twoBlobs = .ok batch := by
  have hmap : IsMap (BlobFunction.process (knownCrates plainDocument) (fun _ => "Binary") .bits64
      (fun _ => none) .isValid) .boolean (fun _ => "Binary") .bits64
      (valueOf (knownCrates plainDocument) (fun _ => none) .isValid) :=
    isMap_process (hexEncodes_knownCrates _) rfl (fun h => by cases h)
  obtain ⟨batch, hbatch, -⟩ := (answers_of_isMap hmap cells_twoBlobs "ok").batch
    ⟨Nat.zero_le _, Nat.zero_le _, Nat.zero_le _⟩
  exact ⟨batch, hbatch⟩

theorem pieces_agree_twoBlobs : ∃ batch batches, callIsValid twoBlobs = .ok batch ∧
    [oneBlob [5, 0, 0, 0, 0], oneBlob []].mapM callIsValid = .ok batches ∧
    values batch.column = batches.flatMap (values ·.column) := by
  obtain ⟨batch, hbatch⟩ := isValid_twoBlobs
  obtain ⟨batches, hbatches, hvalues⟩ := (pieces_agree (knownCrates plainDocument)
    (hexEncodes_knownCrates _) (fun _ => "Binary") .bits64 .isValid (fun _ => none) .boolean rfl
    (fun h => by cases h) "ok" twoBlobs [oneBlob [5, 0, 0, 0, 0], oneBlob []]
    [[some ⟨[5, 0, 0, 0, 0], by decide⟩], [some ⟨[], by decide⟩]] cells_twoBlobs
    (.cons rfl (.cons rfl .nil))).1 batch hbatch
  exact ⟨batch, batches, hbatch, hbatches, hvalues⟩

section Readers

variable {b : Bytes T} {args : Arguments}

/-- A blob that does not decode is null to every reader. -/
theorem ofBlob_of_error {e : Stop DecodeError} (h : decodeDocument crates b = .error e) :
    ∀ f ∈ [BlobFunction.decode, .toJson, .keys, .field, .typeOf],
      ofBlob crates args b f = .null := by
  obtain ⟨hjson, hkeys, hfield, htype⟩ := readers_of_error crates h
  intro f hf
  simp only [List.mem_cons, List.not_mem_nil, or_false] at hf
  rcases hf with rfl | rfl | rfl | rfl | rfl
  · simp only [ofBlob, hjson]
    rfl
  · simp only [ofBlob, hjson]
    cases ToJson.mode args <;> rfl
  · simp only [ofBlob, hkeys]
    rfl
  · simp only [ofBlob, hfield]
    cases Field.path args <;> cases Field.mode args <;> rfl
  · simp only [ofBlob, htype]
    rfl

/-- A blob that decodes is null to no reader of whole documents. -/
theorem ofBlob_of_decode {doc : BsonValues.Document} (h : decodeDocument crates b = .ok doc) :
    ofBlob crates args b .decode ≠ .null ∧ ofBlob crates args b .keys ≠ .null ∧
      (∀ mode, ToJson.mode args = .ok mode → ofBlob crates args b .toJson ≠ .null) ∧
      (args 1 = none → ofBlob crates args b .typeOf = .varchar "object") := by
  have hjson (mode : JsonMode) :
      toJson crates b mode = .ok (documentToExtjson crates doc mode) := by
    rw [toJson, h]
    rfl
  have hkeys : keys crates b = .ok (crates.keys doc) := by
    rw [keys, h]
    rfl
  have htype : typeOf crates b none = .ok (some "object") := by
    rw [typeOf, h]
    rfl
  refine ⟨?_, ?_, ?_, ?_⟩
  · simp only [ofBlob, hjson]
    intro hnull
    cases hnull
  · simp only [ofBlob, hkeys]
    intro hnull
    cases hnull
  · intro mode hmode
    simp only [ofBlob, hmode, hjson]
    intro hnull
    cases hnull
  · intro hpath
    simp only [ofBlob, hpath, htype]
    rfl

theorem nullOr_varchar_eq_null_iff {v : Option String} :
    nullOr .varchar v = .null ↔ v = none := by
  cases v with
  | none => exact iff_of_true rfl rfl
  | some s => simp [nullOr]

/-- A value is projected where its type is known. -/
theorem field_eq_null_iff (hhex : HexEncodes crates) {path : String} {mode : Coerce}
    (hpath : args 1 = some path) (hmode : Field.mode args = .ok mode) :
    ofBlob crates args b .field = .null ↔ ofBlob crates args b .typeOf = .null := by
  have hread : Field.path args = .ok path := by rw [Field.path, hpath]
  cases h : decodeDocument crates b with
  | error e =>
    rw [ofBlob_of_error h .field (by simp), ofBlob_of_error h .typeOf (by simp)]
  | ok doc =>
    simp only [ofBlob, hread, hmode, hpath]
    rw [nullOr_varchar_eq_null_iff, nullOr_varchar_eq_null_iff, field_of_decode h,
      typeOf_of_decode h]
    cases navigate crates T (.document doc) path with
    | none => exact iff_of_true rfl rfl
    | some leaf =>
      obtain ⟨text, htext⟩ := coerce_total (ε := DecodeError) hhex leaf mode
      dsimp only
      rw [htext]
      exact iff_of_false (Option.some_ne_none text) (Option.some_ne_none (typeName leaf))

end Readers

/-- Both verdicts on a blob come from one walk. -/
theorem verdicts_agree (b : Bytes T) (args : Arguments) :
    (ofBlob crates args b .isValid = .boolean true ∧
      ofBlob crates args b .wellFormed = .diagnosis (some true) none none) ∨
    ∃ e : DecodeError, ofBlob crates args b .isValid = .boolean false ∧
      ofBlob crates args b .wellFormed =
        .diagnosis (some false) (some e.message) (some e.kind) := by
  have hvalidate := returned_validate b
  simp only [ofBlob, isValid, wellFormed]
  cases hv : validate b with
  | ok u => exact .inl ⟨rfl, rfl⟩
  | error r =>
    rw [hv] at hvalidate
    cases r with
    | error e => exact .inr ⟨e, rfl, rfl⟩
    | panic => exact absurd rfl hvalidate.1
    | fuel => exact absurd rfl hvalidate.2

/-- The functions agree on what a blob is: all readers of documents are null on the same blobs,
the projected value and its type are null on the same paths, and the two verdicts are one. -/
theorem readers_null_together (crates : Crates) (hhex : HexEncodes crates) (T : Target)
    (b : Bytes T) (args : Arguments) :
    (ofBlob crates args b .keys = .null ↔ ofBlob crates args b .decode = .null) ∧
    (∀ mode, ToJson.mode args = .ok mode →
      (ofBlob crates args b .toJson = .null ↔ ofBlob crates args b .decode = .null)) ∧
    (args 1 = none → ofBlob crates args b .typeOf =
      if ofBlob crates args b .decode = .null then .null else .varchar "object") ∧
    (∀ path mode, args 1 = some path → Field.mode args = .ok mode →
      (ofBlob crates args b .field = .null ↔ ofBlob crates args b .typeOf = .null) ∧
      (ofBlob crates args b .decode = .null → ofBlob crates args b .field = .null)) ∧
    ((ofBlob crates args b .isValid = .boolean true ∧
        ofBlob crates args b .wellFormed = .diagnosis (some true) none none) ∨
      ∃ e : DecodeError, ofBlob crates args b .isValid = .boolean false ∧
        ofBlob crates args b .wellFormed =
          .diagnosis (some false) (some e.message) (some e.kind)) := by
  cases h : decodeDocument crates b with
  | error e =>
    have hnull := @ofBlob_of_error T crates b args e h
    have hdecode := hnull .decode (by simp)
    have hkeys := hnull .keys (by simp)
    have hjson := hnull .toJson (by simp)
    have hfield := hnull .field (by simp)
    have htype := hnull .typeOf (by simp)
    refine ⟨?_, ?_, ?_, ?_, verdicts_agree b args⟩
    · rw [hkeys, hdecode]
    · intro _ _
      rw [hjson, hdecode]
    · intro _
      rw [htype, if_pos hdecode]
    · intro _ _ _ _
      rw [hfield, htype]
      exact ⟨Iff.rfl, fun _ => rfl⟩
  | ok doc =>
    obtain ⟨hdecode, hkeys, hjson, htype⟩ := @ofBlob_of_decode T crates b args doc h
    refine ⟨?_, ?_, ?_, ?_, verdicts_agree b args⟩
    · exact iff_of_false hkeys hdecode
    · intro mode hmode
      exact iff_of_false (hjson mode hmode) hdecode
    · intro hpath
      rw [htype hpath, if_neg hdecode]
    · intro path mode hpath hmode
      exact ⟨field_eq_null_iff hhex hpath hmode, fun hnull => absurd hnull hdecode⟩

theorem readers_null_together_plainBytes :
    (ofBlob (knownCrates plainDocument) (fun _ => none) plainBytes .keys = .null ↔
      ofBlob (knownCrates plainDocument) (fun _ => none) plainBytes .decode = .null) :=
  (readers_null_together (knownCrates plainDocument) (hexEncodes_knownCrates _) .bits64 plainBytes
    (fun _ => none)).1

end VgiBson.ScalarCalls
