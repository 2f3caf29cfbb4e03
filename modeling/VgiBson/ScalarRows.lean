import VgiBson.ArgumentChoices
import VgiBson.ProjectedKeys
import VgiBson.ValidatorBounds

/-! # A scalar function is a function of cells

What a function makes of one cell, and that a call is this function on every row: the rest of a
call is reading, building with 32-bit offsets, and the schema. -/

namespace VgiBson.ScalarRows

open MachineBytes CursorWalks CursorBounds StructuralValidator ValidatorBounds ArrowColumns
  BsonValues DocumentDecoding FieldProjection ColumnEncoding ReplicationClock ObjectIds DottedPaths
  ProjectedKeys ScalarColumns ScalarFunctions ArgumentChoices

variable {T : Target} {α β γ : Type} {ε : Type}

inductive SqlValue where
  | null
  | boolean (b : Bool)
  | varchar (s : String)
  | blob (bytes : List UInt8)
  | list (items : List String)
  | diagnosis (ok : Option Bool) (error kind : Option String)
  | timestamptz (micros : Int64)
  | timestampParts (t i : Option UInt32)
  deriving DecidableEq, Repr

def nullOr (f : α → SqlValue) (v : Option α) : SqlValue := (v.map f).getD .null

/-- The rows of a column, as the engine sees them. -/
def values : ResultColumn → List SqlValue
  | .boolean rows => rows.map (nullOr .boolean)
  | .utf8 rows => rows.map (nullOr .varchar)
  | .binary rows => rows.map (nullOr .blob)
  | .listUtf8 rows => rows.map (nullOr .list)
  | .wellFormed rows => (rows.valid.zip (rows.ok.zip (rows.error.zip rows.kind))).map fun r =>
      if r.1 then .diagnosis r.2.1 r.2.2.1 r.2.2.2 else .null
  | .clock (.timestamptz micros) => micros.map (nullOr .timestamptz)
  | .clock (.timestampParts parts) => (parts.valid.zip (parts.t.zip parts.i)).map fun r =>
      if r.1 then .timestampParts r.2.1 r.2.2 else .null

/-- The data that the cell adds to the first column of bytes. -/
def dataSize : SqlValue → ℕ
  | .varchar s => (utf8 s).length
  | .blob bytes => bytes.length
  | .list items => (items.map fun s => (utf8 s).length).sum
  | .diagnosis _ error _ => textSize error
  | _ => 0

def kindSize : SqlValue → ℕ
  | .diagnosis _ _ kind => textSize kind
  | _ => 0

def itemCount : SqlValue → ℕ
  | .list items => items.length
  | _ => 0

/-- The cells of one column can be addressed with 32-bit offsets. -/
structure Fits (vs : List SqlValue) : Prop where
  data : (vs.map dataSize).sum ≤ maxOffset
  kinds : (vs.map kindSize).sum ≤ maxOffset
  items : (vs.map itemCount).sum ≤ maxOffset

variable (crates : Crates) (debug : ArrayRef → String)

/-- What a function makes of a blob. -/
def ofBlob (args : Arguments) (b : Bytes T) : BlobFunction → SqlValue
  | .decode => nullOr .varchar (toJson crates b .canonical).toOption
  | .toJson =>
    match ToJson.mode args with
    | .ok mode => nullOr .varchar (toJson crates b mode).toOption
    | .error _ => .null
  | .fromJson => nullOr .blob ((fromUtf8 b.data).bind fun s => (fromJson crates s).toOption)
  | .isValid => .boolean (isValid b)
  | .wellFormed =>
    match wellFormed b with
    | .ok w => .diagnosis (some w.ok) w.error w.kind
    | .error _ => .null
  | .keys => nullOr .list (keys crates b).toOption
  | .field =>
    match Field.path args, Field.mode args with
    | .ok path, .ok mode => nullOr .varchar (field crates b path mode).toOption.join
    | _, _ => .null
  | .typeOf => nullOr .varchar (typeOf crates b (args 1)).toOption.join
  | .objectidHex => nullOr .varchar (objectidHex crates b).toOption

/-- What a function makes of a cell: null is mapped to null. -/
def valueOf (args : Arguments) (f : BlobFunction) : Option (Bytes T) → SqlValue
  | some b => ofBlob crates args b f
  | none => .null

/-- The cells of a column of bytes. -/
def blobCells (T : Target) (col : ArrayRef) : Outcome RpcError (List (Option (Bytes T))) :=
  (List.range col.len).mapM (blobBytes debug T col)

/-- A loop that reads and computes is a loop that reads, and the computation on what it read. -/
theorem mapM_pure_right {read : α → Outcome ε β} {f : α → Outcome ε γ} {g : β → γ}
    (h : ∀ a, f a = read a >>= fun b => pure (g b)) (l : List α) :
    l.mapM f = l.mapM read >>= fun bs => pure (bs.map g) := by
  induction l with
  | nil => rfl
  | cons a l ih =>
    rw [List.mapM_cons, List.mapM_cons, h, ih]
    cases read a with
    | error e => rfl
    | ok b => cases l.mapM read <;> rfl

variable {debug}

theorem mapBlobs_eq {f : Bytes T → Outcome RpcError (Option α)} {g : Bytes T → Option α}
    (h : ∀ b, f b = .ok (g b)) (col : ArrayRef) : mapBlobs debug T f col =
      blobCells debug T col >>= fun cells => pure (cells.map (Option.bind · g)) := by
  apply mapM_pure_right
  intro i
  apply congrArg (blobBytes debug T col i >>= ·)
  funext cell
  cases cell with
  | none => rfl
  | some b => exact h b

theorem okOrNone_of_returned {x : Outcome DecodeError α} (h : Returned x) :
    okOrNone x = .ok x.toOption := by
  cases x with
  | ok a => rfl
  | error e =>
    cases e with
    | error e => rfl
    | panic => exact absurd rfl h.1
    | fuel => exact absurd rfl h.2

theorem returned_bind {x : Outcome ε α} {f : α → Outcome ε β} (hx : Returned x)
    (hf : ∀ a, x = .ok a → Returned (f a)) : Returned (x >>= f) := by
  cases x with
  | ok a => exact hf a rfl
  | error e =>
    cases e with
    | error e => exact returned_error e
    | panic => exact absurd rfl hx.1
    | fuel => exact absurd rfl hx.2

theorem returned_decodeDocument (b : Bytes T) : Returned (decodeDocument crates b) := by
  have hprecheck : Returned (precheck b) := (bounded_validateDoc 0 false 0).returned
  apply returned_bind hprecheck
  intro _ _
  cases (crates.fromReader b.data).mapError classify with
  | ok doc => exact returned_ok doc
  | error e => exact returned_error e

/-- The column has the cells, if they can be addressed. -/
structure Built (arr : Outcome RpcError ResultColumn) (ty : ResultType) (vs : List SqlValue) :
    Prop where
  column : Fits vs → ∃ c, arr = .ok c ∧ c.dataType = ty ∧ values c = vs
  overflow : ¬ Fits vs → arr = .error .panic

theorem sum_map_zero {size : α → ℕ} {l : List α} (h : ∀ a ∈ l, size a = 0) :
    (l.map size).sum = 0 := by
  induction l with
  | nil => rfl
  | cons a l ih =>
    simp only [List.mem_cons, forall_eq_or_imp] at h
    rw [List.map_cons, List.sum_cons, h.1, ih h.2]

/-- Cells that hold no lists and no diagnoses only need room for their data. -/
theorem fits_of_plain {f : α → SqlValue} (hkind : ∀ a, kindSize (f a) = 0)
    (hitems : ∀ a, itemCount (f a) = 0) (out : List (Option α)) :
    Fits (out.map (nullOr f)) ↔ ((out.map (nullOr f)).map dataSize).sum ≤ maxOffset := by
  have hkinds : ((out.map (nullOr f)).map kindSize).sum = 0 := by
    rw [List.map_map]
    apply sum_map_zero
    intro v _
    cases v with
    | none => rfl
    | some a => exact hkind a
  have hcounts : ((out.map (nullOr f)).map itemCount).sum = 0 := by
    rw [List.map_map]
    apply sum_map_zero
    intro v _
    cases v with
    | none => rfl
    | some a => exact hitems a
  exact ⟨Fits.data, fun h => ⟨h, hkinds ▸ Nat.zero_le _, hcounts ▸ Nat.zero_le _⟩⟩

theorem map_dataSize {f : α → SqlValue} {size : Option α → ℕ}
    (h : ∀ v, dataSize (nullOr f v) = size v) (out : List (Option α)) :
    (out.map (nullOr f)).map dataSize = out.map size := by
  rw [List.map_map]
  exact List.map_congr_left fun v _ => h v

/-- A column of one builder of bytes. -/
theorem built_bytes (f : α → SqlValue) (size : Option α → ℕ)
    (column : List (Option α) → ResultColumn) (hkind : ∀ a, kindSize (f a) = 0)
    (hitems : ∀ a, itemCount (f a) = 0) (hsize : ∀ v, dataSize (nullOr f v) = size v)
    {ty : ResultType} (htype : ∀ out, (column out).dataType = ty)
    (hvalues : ∀ out, values (column out) = out.map (nullOr f)) (out : List (Option α)) :
    Built (column <$> buildBytes size out) ty (out.map (nullOr f)) := by
  have hfits := fits_of_plain hkind hitems out
  rw [map_dataSize hsize] at hfits
  constructor
  · intro h
    refine ⟨column out, ?_, htype out, hvalues out⟩
    rw [buildBytes_eq, if_pos (hfits.mp h)]
    rfl
  · intro h
    rw [buildBytes_eq, if_neg (mt hfits.mpr h)]
    rfl

theorem built_stringArray (out : List (Option String)) :
    Built (stringArray out) .utf8 (out.map (nullOr .varchar)) := by
  refine built_bytes .varchar textSize .utf8 (fun _ => rfl) (fun _ => rfl) ?_ (fun _ => rfl)
    (fun _ => rfl) out
  intro v
  cases v <;> rfl

theorem built_binaryArray (out : List (Option (List UInt8))) :
    Built (binaryArray out) .binary (out.map (nullOr .blob)) := by
  refine built_bytes .blob blobSize .binary (fun _ => rfl) (fun _ => rfl) ?_ (fun _ => rfl)
    (fun _ => rfl) out
  intro v
  cases v <;> rfl

theorem built_boolOptArray (out : List (Option Bool)) :
    Built (pure (boolOptArray out)) .boolean (out.map (nullOr .boolean)) := by
  have hzero : ((out.map (nullOr .boolean)).map dataSize).sum = 0 := by
    rw [List.map_map]
    apply sum_map_zero
    intro v _
    cases v <;> rfl
  have hfits : Fits (out.map (nullOr .boolean)) := by
    rw [fits_of_plain (fun _ => rfl) (fun _ => rfl), hzero]
    exact Nat.zero_le _
  exact ⟨fun _ => ⟨.boolean out, rfl, rfl, rfl⟩, fun h => absurd hfits h⟩

theorem sum_lists (out : List (Option (List String))) :
    ((out.map (nullOr .list)).map dataSize).sum =
        ((allItems out).map fun s => (utf8 s).length).sum ∧
      ((out.map (nullOr .list)).map itemCount).sum = (allItems out).length := by
  induction out with
  | nil => exact ⟨rfl, rfl⟩
  | cons row out ih =>
    have hrow : allItems (row :: out) = row.getD [] ++ allItems out := rfl
    simp only [List.map_cons, List.sum_cons, hrow, List.map_append, List.sum_append,
      List.length_append, ih.1, ih.2]
    cases row <;> exact ⟨rfl, rfl⟩

theorem built_listStringArray (out : List (Option (List String))) :
    Built (listStringArray out) .listUtf8 (out.map (nullOr .list)) := by
  have hkinds : ((out.map (nullOr .list)).map kindSize).sum = 0 := by
    rw [List.map_map]
    apply sum_map_zero
    intro v _
    cases v <;> rfl
  have hfits : Fits (out.map (nullOr .list)) ↔
      ((allItems out).map fun s => (utf8 s).length).sum ≤ maxOffset ∧
        (allItems out).length ≤ maxOffset := by
    rw [← (sum_lists out).1, ← (sum_lists out).2]
    exact ⟨fun h => ⟨h.data, h.items⟩, fun h => ⟨h.1, hkinds ▸ Nat.zero_le _, h.2⟩⟩
  constructor
  · intro h
    exact ⟨.listUtf8 out, by rw [listStringArray_eq, if_pos (hfits.mp h)], rfl, rfl⟩
  · intro h
    rw [listStringArray_eq, if_neg (mt hfits.mpr h)]

/-- The cell of a diagnosis, and the null mask. -/
def diagnosisOf (d : Option Bool × Option String × Option String × Bool) : SqlValue :=
  if d.2.2.2 then .diagnosis d.1 d.2.1 d.2.2.1 else .null

/-- A row without a diagnosis holds no texts. -/
def Blank (d : Option Bool × Option String × Option String × Bool) : Prop :=
  d.2.2.2 = false → d.2.1 = none ∧ d.2.2.1 = none

theorem built_wellFormedArray
    (cells : List (Option Bool × Option String × Option String × Bool))
    (hblank : ∀ d ∈ cells, Blank d) :
    Built (wellFormedArray (cells.map (·.1)) (cells.map (·.2.1)) (cells.map (·.2.2.1))
      (cells.map (·.2.2.2))) .wellFormed (cells.map diagnosisOf) := by
  have herror : (cells.map diagnosisOf).map dataSize = (cells.map (·.2.1)).map textSize := by
    rw [List.map_map, List.map_map]
    apply List.map_congr_left
    intro d hd
    obtain ⟨ok, error, kind, valid⟩ := d
    cases valid with
    | true => rfl
    | false => rw [Function.comp_apply, Function.comp_apply, (hblank _ hd rfl).1]; rfl
  have hkind : (cells.map diagnosisOf).map kindSize = (cells.map (·.2.2.1)).map textSize := by
    rw [List.map_map, List.map_map]
    apply List.map_congr_left
    intro d hd
    obtain ⟨ok, error, kind, valid⟩ := d
    cases valid with
    | true => rfl
    | false => rw [Function.comp_apply, Function.comp_apply, (hblank _ hd rfl).2]; rfl
  have hitems : ((cells.map diagnosisOf).map itemCount).sum = 0 := by
    rw [List.map_map]
    apply sum_map_zero
    intro d _
    obtain ⟨ok, error, kind, valid⟩ := d
    cases valid <;> rfl
  have hlen : (cells.map (·.1)).length = (cells.map (·.2.2.2)).length ∧
      (cells.map (·.2.1)).length = (cells.map (·.2.2.2)).length ∧
        (cells.map (·.2.2.1)).length = (cells.map (·.2.2.2)).length := by
    simp
  constructor
  · intro h
    have hdata := h.data
    have hkinds := h.kinds
    rw [herror] at hdata
    rw [hkind] at hkinds
    refine ⟨.wellFormed ⟨_, _, _, _, hlen⟩, ?_, rfl, ?_⟩
    · rw [wellFormedArray, buildBytes_eq, if_pos hdata, buildBytes_eq, if_pos hkinds]
      exact dif_pos hlen
    · rw [values, List.zip_map', List.zip_map', List.zip_map', List.map_map]
      rfl
  · intro h
    rw [wellFormedArray, buildBytes_eq, buildBytes_eq]
    by_cases hdata : ((cells.map (·.2.1)).map textSize).sum ≤ maxOffset
    · have hkinds : ¬ ((cells.map (·.2.2.1)).map textSize).sum ≤ maxOffset := by
        intro hkinds
        exact h ⟨herror ▸ hdata, hkind ▸ hkinds, hitems ▸ Nat.zero_le _⟩
      rw [if_pos hdata, if_neg hkinds]
      rfl
    · rw [if_neg hdata]
      rfl

/-- A call reads all cells, builds the column of what the function makes of them, and answers with
it. -/
def IsMap (process : List ResultField → ArrayRef → Outcome RpcError ResultBatch) (ty : ResultType)
    (debug : ArrayRef → String) (T : Target) (value : Option (Bytes T) → SqlValue) : Prop :=
  ∃ arr : List (Option (Bytes T)) → Outcome RpcError ResultColumn,
    (∀ schema col, process schema col =
      blobCells debug T col >>= fun cells => arr cells >>= respond schema) ∧
    ∀ cells, Built (arr cells) ty (cells.map value)

/-- A blob is mapped to a cell and null to null. -/
theorem map_cells {f : α → SqlValue} {g : Bytes T → Option α} {value : Option (Bytes T) → SqlValue}
    (hnone : value none = .null) (hsome : ∀ b, value (some b) = nullOr f (g b))
    (cells : List (Option (Bytes T))) :
    (cells.map (Option.bind · g)).map (nullOr f) = cells.map value := by
  rw [List.map_map]
  apply List.map_congr_left
  intro cell _
  cases cell with
  | none => exact hnone.symm
  | some b => exact (hsome b).symm

/-- A loop over the rows whose results are put into one column. -/
theorem isMap_of_rows {process : List ResultField → ArrayRef → Outcome RpcError ResultBatch}
    {f : Bytes T → Outcome RpcError (Option α)} {g : Bytes T → Option α}
    {build : List (Option α) → Outcome RpcError ResultColumn} {ty : ResultType}
    {cell : α → SqlValue} {value : Option (Bytes T) → SqlValue}
    (hprocess : ∀ schema col, process schema col =
      mapBlobs debug T f col >>= fun out => build out >>= respond schema)
    (hbuilt : ∀ out, Built (build out) ty (out.map (nullOr cell))) (hf : ∀ b, f b = .ok (g b))
    (hnone : value none = .null) (hsome : ∀ b, value (some b) = nullOr cell (g b)) :
    IsMap process ty debug T value := by
  refine ⟨fun cells => build (cells.map (Option.bind · g)), ?_, ?_⟩
  · intro schema col
    rw [hprocess, mapBlobs_eq hf]
    cases blobCells debug T col <;> rfl
  · intro cells
    rw [← map_cells hnone hsome]
    exact hbuilt _

theorem returned_toJson (b : Bytes T) (mode : JsonMode) : Returned (toJson crates b mode) :=
  returned_bind (returned_decodeDocument crates b) fun _ _ => returned_ok _

theorem returned_keys (b : Bytes T) : Returned (keys crates b) :=
  returned_bind (returned_decodeDocument crates b) fun _ _ => returned_ok _

theorem returned_typeOf (b : Bytes T) (path : Option String) : Returned (typeOf crates b path) :=
  returned_bind (returned_decodeDocument crates b) fun _ _ => returned_ok _

variable {crates}

theorem returned_field (hhex : HexEncodes crates) (b : Bytes T) (path : String) (mode : Coerce) :
    Returned (field crates b path mode) := by
  apply returned_bind (returned_decodeDocument crates b)
  intro doc _
  dsimp only
  cases navigate crates T (.document doc) path with
  | none => exact returned_ok none
  | some leaf =>
    obtain ⟨text, htext⟩ := coerce_total (ε := DecodeError) hhex leaf mode
    dsimp only
    rw [htext]
    exact returned_ok (some text)

theorem isMap_decode (args : Arguments) :
    IsMap (Decode.process crates debug T) .utf8 debug T (valueOf crates args .decode) :=
  isMap_of_rows (fun _ _ => rfl) built_stringArray
    (fun b => okOrNone_of_returned (returned_toJson crates b .canonical)) rfl fun _ => rfl

theorem isMap_toJson {args : Arguments} {mode : JsonMode} (hmode : ToJson.mode args = .ok mode) :
    IsMap (ToJson.process crates debug T args) .utf8 debug T (valueOf crates args .toJson) := by
  refine isMap_of_rows ?_ built_stringArray
    (fun b => okOrNone_of_returned (returned_toJson crates b mode)) rfl ?_
  · intro schema col
    rw [ToJson.process, hmode]
    rfl
  · intro b
    simp only [valueOf, ofBlob, hmode]

theorem isMap_fromJson (args : Arguments) :
    IsMap (FromJson.process crates debug T) .binary debug T (valueOf crates args .fromJson) :=
  isMap_of_rows (fun _ _ => rfl) built_binaryArray (fun _ => rfl) rfl fun _ => rfl

theorem join_okOrNone {x : Outcome DecodeError (Option α)} (h : Returned x) :
    Option.join <$> okOrNone x = .ok x.toOption.join := by
  rw [okOrNone_of_returned h]
  rfl

theorem isMap_field (hhex : HexEncodes crates) {args : Arguments} {path : String} {mode : Coerce}
    (hpath : Field.path args = .ok path) (hmode : Field.mode args = .ok mode) :
    IsMap (Field.process crates debug T args) .utf8 debug T (valueOf crates args .field) := by
  refine isMap_of_rows ?_ built_stringArray
    (fun b => join_okOrNone (returned_field hhex b path mode)) rfl ?_
  · intro schema col
    rw [Field.process, hpath, hmode]
    rfl
  · intro b
    simp only [valueOf, ofBlob, hpath, hmode]

theorem isMap_typeOf (args : Arguments) :
    IsMap (TypeOf.process crates debug T args) .utf8 debug T (valueOf crates args .typeOf) :=
  isMap_of_rows (fun _ _ => rfl) built_stringArray
    (fun b => join_okOrNone (returned_typeOf crates b (args 1))) rfl fun _ => rfl

theorem isMap_objectidHex (args : Arguments) : IsMap (ObjectIdHex.process crates debug T) .utf8
    debug T (valueOf crates args .objectidHex) :=
  isMap_of_rows (fun _ _ => rfl) built_stringArray (fun _ => rfl) rfl fun _ => rfl

theorem isMap_isValid (args : Arguments) :
    IsMap (IsValid.process debug T) .boolean debug T (valueOf crates args .isValid) := by
  refine ⟨buildIsValid, fun _ _ => rfl, ?_⟩
  intro cells
  have hcells : (cells.map (Option.map isValid)).map (nullOr .boolean) =
      cells.map (valueOf crates args .isValid) := by
    rw [List.map_map]
    apply List.map_congr_left
    intro cell _
    cases cell <;> rfl
  rw [← hcells]
  exact built_boolOptArray _

theorem mapM_eq_map {f : α → Outcome ε β} {g : α → β} (h : ∀ a, f a = .ok (g a)) (l : List α) :
    l.mapM f = .ok (l.map g) := by
  induction l with
  | nil => rfl
  | cons a l ih =>
    rw [List.mapM_cons, h, ih]
    rfl

theorem isMap_keys (args : Arguments) :
    IsMap (Keys.process crates debug T) .listUtf8 debug T (valueOf crates args .keys) := by
  refine ⟨buildKeys crates, fun _ _ => rfl, ?_⟩
  intro cells
  have hrow (cell : Option (Bytes T)) :
      keysOf crates cell = .ok (cell.bind fun b => (keys crates b).toOption) := by
    cases cell with
    | none => rfl
    | some b => exact okOrNone_of_returned (returned_keys crates b)
  have hcells : (cells.map (Option.bind · fun b => (keys crates b).toOption)).map (nullOr .list) =
      cells.map (valueOf crates args .keys) :=
    @map_cells T _ .list (fun b => (keys crates b).toOption) _ rfl (fun _ => rfl) cells
  rw [buildKeys, mapM_eq_map hrow, ← hcells]
  exact built_listStringArray _

theorem returned_validate (b : Bytes T) : Returned (validate b) := by
  have hdoc : BoundedAt b.len 0 (validateDoc b 0 true) 0 := bounded_validateDoc 0 true 0
  have hwalk : BoundedAt b.len 0 (validateDoc b 0 true >>= fun _ => position >>= fun pos =>
      if pos ≠ b.len then fail .trailingBytes else (pure () : Walk DecodeError Unit)) 0 :=
    hdoc.bind_same fun _ _ => .position_bind (.guard fun _ => .pure ())
  exact hwalk.returned

theorem exists_wellFormed (b : Bytes T) : ∃ w, wellFormed b = .ok w := by
  have hvalidate := returned_validate b
  cases hv : validate b with
  | ok u => exact ⟨⟨true, none, none⟩, by rw [wellFormed, hv]⟩
  | error r =>
    rw [hv] at hvalidate
    cases r with
    | error e => exact ⟨⟨false, some e.message, some e.kind⟩, by rw [wellFormed, hv]⟩
    | panic => exact absurd rfl hvalidate.1
    | fuel => exact absurd rfl hvalidate.2

/-- What a row adds to the four lists, as a value. -/
def diagnosed : Option (Bytes T) → Option Bool × Option String × Option String × Bool
  | none => (none, none, none, false)
  | some b =>
    match wellFormed b with
    | .ok w => (some w.ok, w.error, w.kind, true)
    | .error _ => (none, none, none, false)

theorem diagnose_eq (cell : Option (Bytes T)) : diagnose cell = .ok (diagnosed cell) := by
  cases cell with
  | none => rfl
  | some b =>
    obtain ⟨w, hw⟩ := exists_wellFormed b
    rw [diagnose, diagnosed, hw]
    rfl

theorem blank_diagnosed (cell : Option (Bytes T)) : Blank (diagnosed cell) := by
  cases cell with
  | none => exact fun _ => ⟨rfl, rfl⟩
  | some b =>
    obtain ⟨w, hw⟩ := exists_wellFormed b
    rw [diagnosed, hw]
    exact nofun

theorem isMap_wellFormed (args : Arguments) : IsMap (WellFormed.process debug T) .wellFormed debug T
    (valueOf crates args .wellFormed) := by
  refine ⟨buildWellFormed, fun _ _ => rfl, ?_⟩
  intro cells
  have hcells : (cells.map diagnosed).map diagnosisOf =
      cells.map (valueOf crates args .wellFormed) := by
    rw [List.map_map]
    apply List.map_congr_left
    intro cell _
    cases cell with
    | none => rfl
    | some b =>
      obtain ⟨w, hw⟩ := exists_wellFormed b
      simp only [Function.comp_apply, diagnosed, valueOf, ofBlob, hw]
      rfl
  have hblank : ∀ d ∈ cells.map diagnosed, Blank d := by
    intro d hd
    obtain ⟨cell, -, rfl⟩ := List.mem_map.mp hd
    exact blank_diagnosed cell
  have hbuild : buildWellFormed cells =
      wellFormedArray ((cells.map diagnosed).map (·.1)) ((cells.map diagnosed).map (·.2.1))
        ((cells.map diagnosed).map (·.2.2.1)) ((cells.map diagnosed).map (·.2.2.2)) := by
    rw [buildWellFormed, mapM_eq_map diagnose_eq]
    rfl
  rw [hbuild, ← hcells]
  exact built_wellFormedArray _ hblank

/-- Every function of a blob is a function of cells, once its arguments are accepted. -/
theorem isMap_process (hhex : HexEncodes crates) {f : BlobFunction} {args : Arguments}
    {ty : ResultType} (hbind : f.onBind args = .ok ty) (hpath : f = .field → args 1 ≠ none) :
    IsMap (f.process crates debug T args) ty debug T (valueOf crates args f) := by
  cases f with
  | decode =>
    obtain ⟨rfl, -⟩ := decode_onBind_iff.mp hbind
    exact isMap_decode args
  | toJson =>
    obtain ⟨rfl, mode, hmode⟩ := toJson_onBind_iff.mp hbind
    exact isMap_toJson hmode
  | field =>
    obtain ⟨rfl, mode, hmode⟩ := field_onBind_iff.mp hbind
    cases hp : args 1 with
    | none => exact absurd hp (hpath rfl)
    | some path =>
      have hpath : Field.path args = .ok path := by rw [Field.path, hp]
      exact isMap_field hhex hpath hmode
  | fromJson =>
    cases hbind
    exact isMap_fromJson args
  | isValid =>
    cases hbind
    exact isMap_isValid args
  | wellFormed =>
    cases hbind
    exact isMap_wellFormed args
  | keys =>
    cases hbind
    exact isMap_keys args
  | typeOf =>
    cases hbind
    exact isMap_typeOf args
  | objectidHex =>
    cases hbind
    exact isMap_objectidHex args

end VgiBson.ScalarRows
