import VgiBson.DecimalColumns
import VgiBson.EncodedDocuments
import VgiBson.ScalarCalls

/-! # Encoding a whole column

A column whose masks, offsets and lengths fit each other is encoded without a panic. A row is null,
or is the document that is read there, or cannot be encoded, and one such row fails the call. -/

namespace VgiBson.EncodedColumns

open MachineBytes CursorWalks ArrowColumns BsonValues DocumentDecoding CrateAssumptions
  ColumnEncoding EncodedDocuments DecimalColumns ScalarColumns ScalarFunctions ScalarRows
  ScalarCalls
open ClockDelivery (Masked)

variable {ε α β : Type} {crates : Crates} {floats : Floats}

/-- The errors of a computation are all of one kind. -/
def FailsAs (kind : Stop ε → Prop) (x : Outcome ε α) : Prop := ∀ e, x = .error e → kind e

section FailsAs

variable {kind kind' : Stop ε → Prop}

theorem FailsAs.ok (a : α) : FailsAs kind (.ok a : Outcome ε α) := by
  intro e h
  cases h

theorem FailsAs.error {e : Stop ε} (h : kind e) : FailsAs kind (.error e : Outcome ε α) := by
  intro e' h'
  cases h'
  exact h

theorem FailsAs.mono {x : Outcome ε α} (h : FailsAs kind x) (hk : ∀ e, kind e → kind' e) :
    FailsAs kind' x := fun e he => hk e (h e he)

theorem FailsAs.bind {x : Outcome ε α} {f : α → Outcome ε β} (hx : FailsAs kind x)
    (hf : ∀ a, x = .ok a → FailsAs kind (f a)) : FailsAs kind (x >>= f) := by
  cases x with
  | ok a => exact hf a rfl
  | error e => exact .error (hx e rfl)

theorem FailsAs.mapM {f : α → Outcome ε β} {l : List α} (h : ∀ a ∈ l, FailsAs kind (f a)) :
    FailsAs kind (l.mapM f) := by
  induction l with
  | nil => exact .ok []
  | cons a l ih =>
    rw [List.mapM_cons]
    refine (h a List.mem_cons_self).bind fun b _ => ?_
    exact (ih fun a ha => h a (List.mem_cons_of_mem _ ha)).bind fun bs _ => .ok _

theorem FailsAs.foldlM {f : β → α → Outcome ε β} {l : List α}
    (h : ∀ a ∈ l, ∀ b, FailsAs kind (f b a)) (b : β) : FailsAs kind (l.foldlM f b) := by
  induction l generalizing b with
  | nil => exact .ok b
  | cons a l ih =>
    rw [List.foldlM_cons]
    refine (h a List.mem_cons_self b).bind fun b' _ => ?_
    exact ih (fun a ha => h a (List.mem_cons_of_mem _ ha)) b'

end FailsAs

mutual

/-- What every array keeps: a mask with an entry for each row, offsets within the child, and columns
and keys of the right length. The scale of a decimal can be negated. -/
def Consistent : ArrayRef → Prop
  | .null _ => True
  | .scalar ty nulls values => Masked (.scalar ty nulls values) ∧ ty ≠ .decimal128 Int8.minValue
  | .list nulls offsets values => Masked (.list nulls offsets values) ∧
    (∀ o ∈ offsets.offsets, o ≤ values.len) ∧ Consistent values
  | .struct len nulls columns => Masked (.struct len nulls columns) ∧ ConsistentColumns len columns
  | .map nulls offsets keys values => Masked (.map nulls offsets keys values) ∧
    (∀ o ∈ offsets.offsets, o ≤ values.len) ∧ keys.len = values.len ∧ Consistent keys ∧
    Consistent values
  | .other debug len nulls => Masked (.other debug len nulls)

def ConsistentColumns (len : ℕ) : List (String × ArrayRef) → Prop
  | [] => True
  | (_, column) :: columns => column.len = len ∧ Consistent column ∧ ConsistentColumns len columns

end

mutual

/-- The types in the column that the encoder does not support. -/
def unsupported : ArrayRef → List String
  | .list _ _ values => unsupported values
  | .struct _ _ columns => unsupportedColumns columns
  | .map _ _ keys values => unsupported keys ++ unsupported values
  | .other debug _ _ => [debug]
  | _ => []

def unsupportedColumns : List (String × ArrayRef) → List String
  | [] => []
  | (_, column) :: columns => unsupported column ++ unsupportedColumns columns

end

/-- The error on one of these types. -/
def Unsupported (debugs : List String) (e : Stop RpcError) : Prop :=
  ∃ debug ∈ debugs, e = .error (.runtimeError ("encode: unsupported input type " ++ debug))

theorem Unsupported.mono {l l' : List String} (h : l ⊆ l') {e : Stop RpcError}
    (he : Unsupported l e) : Unsupported l' e :=
  he.imp fun _ hd => ⟨h hd.1, hd.2⟩

theorem Consistent.masked {array : ArrayRef} (h : Consistent array) : Masked array := by
  cases array with
  | null len => exact fun _ h => by cases h
  | other => exact h
  | _ => exact h.1

/-- Past the null check a row is read only where it is not null. -/
theorem failsAs_cell {kind : Stop RpcError → Prop} {array : ArrayRef} (hmask : Masked array)
    {row : ℕ} (hrow : row < array.len) {null : α} {arm : Outcome RpcError α}
    (h : FailsAs kind arm) :
    FailsAs kind (isNull array.nulls row >>= fun n => if n = true then pure null else arm) := by
  rcases hmask.isNull_cases (ε := RpcError) hrow with ⟨hnull, -⟩ | ⟨hnull, -⟩
  · rw [hnull]
    exact .ok null
  · rw [hnull]
    exact h

theorem exists_element {values : List α} {row : ℕ} (h : row < values.length) :
    ∃ v, (element values row : Outcome ε α) = .ok v := by
  rw [element, List.getElem?_eq_getElem h]
  exact ⟨_, rfl⟩

theorem exists_scalarValue {ty : ScalarType} (hty : ty ≠ .decimal128 Int8.minValue)
    (x : ty.Value) : ∃ v, (scalarValue crates floats ty x : Outcome ε Bson) = .ok v := by
  cases ty with
  | decimal128 scale =>
    have hmin : scale ≠ Int8.minValue := fun h => hty (congrArg _ h)
    obtain ⟨s, hs, -⟩ := exists_formatDecimal (ε := ε) x hmin
    rw [scalarValue, decimal128FromScaled, hs, ok_bind]
    cases crates.decimalFromStr s.text with
    | ok d => exact ⟨_, rfl⟩
    | error e => exact ⟨_, rfl⟩
  | _ => exact ⟨_, rfl⟩

/-- The rows of a slice lie within the child. -/
theorem exists_slice {offsets : OffsetBuffer} {childLen row : ℕ}
    (hoffsets : ∀ o ∈ offsets.offsets, o ≤ childLen) (hrow : row < offsets.rows) :
    ∃ rows, (offsets.slice childLen row : Outcome ε (List ℕ)) = .ok rows ∧
      ∀ i ∈ rows, i < childLen := by
  rw [OffsetBuffer.rows] at hrow
  have hstart : offsets.offsets[row]? = some offsets.offsets[row] := List.getElem?_eq_getElem _
  have hstop : offsets.offsets[row + 1]? = some offsets.offsets[row + 1] :=
    List.getElem?_eq_getElem _
  have hle : offsets.offsets[row + 1] ≤ childLen := hoffsets _ (List.getElem_mem _)
  refine ⟨List.range' offsets.offsets[row] (offsets.offsets[row + 1] - offsets.offsets[row]),
    ?_, ?_⟩
  · rw [OffsetBuffer.slice, hstart, hstop]
    exact if_pos hle
  · intro i hi
    rw [List.mem_range'_1] at hi
    omega

/-- The text of a key fails only where the key does. -/
theorem failsAs_keyText {kind : Stop RpcError → Prop} {keys : ArrayRef} {i : ℕ} (hi : i < keys.len)
    {value : Outcome RpcError Bson} (h : FailsAs kind value) :
    FailsAs kind (keyText crates keys i value) := by
  cases keys with
  | scalar ty nulls values =>
    obtain ⟨x, hx⟩ := exists_element (ε := RpcError) hi
    cases ty with
    | utf8 | largeUtf8 =>
      rw [keyText, hx]
      exact .ok x
    | _ =>
      refine h.bind fun v _ => ?_
      cases v <;> exact .ok _
  | _ =>
    refine h.bind fun v _ => ?_
    cases v <;> exact .ok _

mutual

/-- Reading a row of a column that fits fails only on unsupported types. -/
theorem failsAs_valueAt (array : ArrayRef) (h : Consistent array) {row : ℕ}
    (hrow : row < array.len) :
    FailsAs (Unsupported (unsupported array)) (valueAt crates floats array row) := by
  cases array with
  | null len => exact .ok Bson.null
  | scalar ty nulls values =>
    refine failsAs_cell h.masked hrow ?_
    obtain ⟨x, hx⟩ := exists_element (ε := RpcError) hrow
    obtain ⟨v, hv⟩ : ∃ v, (scalarValue crates floats ty x : Outcome RpcError Bson) = .ok v :=
      exists_scalarValue h.2 x
    rw [hx, ok_bind, hv]
    exact .ok v
  | list nulls offsets values =>
    refine failsAs_cell h.masked hrow ?_
    simp only [Consistent] at h
    obtain ⟨rows, hrows, hlt⟩ := exists_slice (ε := RpcError) h.2.1 hrow
    rw [hrows]
    have hitems : FailsAs (Unsupported (unsupported values))
        (rows.mapM fun i => valueAt crates floats values i) :=
      .mapM fun i hi => failsAs_valueAt values h.2.2 (hlt i hi)
    exact hitems.bind fun out _ => .ok _
  | struct len nulls columns =>
    refine failsAs_cell h.masked hrow ?_
    simp only [Consistent] at h
    exact (failsAs_insertColumns columns h.2 hrow []).bind fun doc _ => .ok _
  | map nulls offsets keys values =>
    rw [valueAt_map]
    refine failsAs_cell h.masked hrow ?_
    simp only [Consistent] at h
    obtain ⟨hmask, hoffsets, hlen, hkeys, hvalues⟩ := h
    obtain ⟨rows, hrows, hlt⟩ := exists_slice (ε := RpcError) hoffsets hrow
    rw [hrows, ok_bind]
    refine FailsAs.bind (.foldlM ?_ _) fun doc _ => .ok _
    intro i hi doc
    have hi' : i < values.len := hlt i hi
    have hkey : FailsAs (Unsupported (unsupported keys)) (valueAt crates floats keys i) :=
      failsAs_valueAt keys hkeys (hlen ▸ hi')
    have hvalue : FailsAs (Unsupported (unsupported values)) (valueAt crates floats values i) :=
      failsAs_valueAt values hvalues hi'
    refine ((failsAs_keyText (hlen ▸ hi') hkey).mono fun e he => ?_).bind fun key _ => ?_
    · exact he.mono (List.subset_append_left _ _)
    · refine (hvalue.mono fun e he => ?_).bind fun v _ => .ok _
      exact he.mono (List.subset_append_right _ _)
  | other debug len nulls =>
    refine failsAs_cell h.masked hrow ?_
    exact .error ⟨debug, List.mem_cons_self, rfl⟩

theorem failsAs_insertColumns (columns : List (String × ArrayRef)) {len row : ℕ}
    (h : ConsistentColumns len columns) (hrow : row < len) (doc : Document) :
    FailsAs (Unsupported (unsupportedColumns columns))
      (insertColumns crates floats columns row doc) := by
  match columns with
  | [] => exact .ok doc
  | (name, column) :: columns =>
    simp only [ConsistentColumns] at h
    obtain ⟨hlen, hcolumn, hcolumns⟩ := h
    simp only [insertColumns, unsupportedColumns]
    have hvalue : FailsAs (Unsupported (unsupported column)) (valueAt crates floats column row) :=
      failsAs_valueAt column hcolumn (hlen ▸ hrow)
    refine (hvalue.mono fun e he => he.mono (List.subset_append_left _ _)).bind fun v _ => ?_
    exact (failsAs_insertColumns columns hcolumns hrow _).mono fun e he =>
      he.mono (List.subset_append_right _ _)

end

/-- The error on a value that is not a document. -/
def topLevelError : Stop RpcError := .error (.runtimeError
  "encode: the top-level value must be a STRUCT or MAP (BSON has no top-level scalar)")

/-- What encoding a row can come to. -/
inductive RowOutcome (crates : Crates) (floats : Floats) (array : ArrayRef) (row : ℕ) :
    Outcome RpcError (Option (List UInt8)) → Prop
  | null (invalid : ¬ IsValid array.nulls row) : RowOutcome crates floats array row (.ok none)
  | written {doc out} (valid : IsValid array.nulls row)
      (read : valueAt crates floats array row = .ok (.document doc))
      (write : crates.toWriter doc = .ok out) : RowOutcome crates floats array row (.ok (some out))
  | unwritten {doc e} (valid : IsValid array.nulls row)
      (read : valueAt crates floats array row = .ok (.document doc))
      (write : crates.toWriter doc = .error e) :
      RowOutcome crates floats array row (.error (.error (.runtimeError e)))
  | notDocument {v} (valid : IsValid array.nulls row)
      (read : valueAt crates floats array row = .ok v) (kind : v.elementType ≠ .embeddedDocument) :
      RowOutcome crates floats array row (.error topLevelError)
  | unsupported {e} (valid : IsValid array.nulls row)
      (read : valueAt crates floats array row = .error e)
      (type : Unsupported (unsupported array) e) : RowOutcome crates floats array row (.error e)

/-- No row of a column that fits comes to anything else. -/
theorem rowOutcome_encodeDocument {array : ArrayRef} (h : Consistent array) {row : ℕ}
    (hrow : row < array.len) :
    RowOutcome crates floats array row (encodeDocument crates floats array row) := by
  rcases h.masked.isNull_cases (ε := RpcError) hrow with ⟨hnull, hvalid⟩ | ⟨hnull, hvalid⟩
  · rw [encodeDocument, hnull]
    exact .null hvalid
  · have hfails : FailsAs (Unsupported (unsupported array)) (valueAt crates floats array row) :=
      failsAs_valueAt array h hrow
    rw [encodeDocument, hnull, ok_bind]
    cases hread : valueAt crates floats array row with
    | error e => exact .unsupported hvalid hread (hfails e hread)
    | ok v =>
      cases v with
      | document doc =>
        cases hwrite : crates.toWriter doc with
        | ok out =>
          simp only [ok_bind, hwrite]
          exact .written hvalid hread hwrite
        | error e =>
          simp only [ok_bind, hwrite]
          exact .unwritten hvalid hread hwrite
      | _ => exact .notDocument hvalid hread (by intro hkind; cases hkind)

/-- Encoding a row does not panic. -/
theorem RowOutcome.error_is {array : ArrayRef} {row : ℕ}
    {x : Outcome RpcError (Option (List UInt8))} (h : RowOutcome crates floats array row x)
    {e : Stop RpcError} (he : x = .error e) : ∃ msg, e = .error (.runtimeError msg) := by
  cases h with
  | null | written => cases he
  | unwritten _ _ _ =>
    cases he
    exact ⟨_, rfl⟩
  | notDocument _ _ _ =>
    cases he
    exact ⟨_, rfl⟩
  | unsupported _ _ htype =>
    cases he
    obtain ⟨debug, -, rfl⟩ := htype
    exact ⟨_, rfl⟩

/-- A loop fails as its first step that fails. -/
theorem mapM_eq_first_error {f : α → Outcome ε β} {e : Stop ε} {a : α} {before after : List α}
    (h : ∀ a' ∈ before, ∃ b, f a' = .ok b) (he : f a = .error e) :
    (before ++ a :: after).mapM f = .error e := by
  induction before with
  | nil =>
    rw [List.nil_append, List.mapM_cons, he]
    rfl
  | cons a' before ih =>
    obtain ⟨b, hb⟩ := h a' List.mem_cons_self
    rw [List.cons_append, List.mapM_cons, hb, ok_bind,
      ih fun a' ha' => h a' (List.mem_cons_of_mem _ ha')]
    rfl

/-- The rows up to one of them. -/
theorem range_split {n row : ℕ} (h : row < n) :
    ∃ after, List.range n = List.range row ++ row :: after := by
  refine ⟨List.range' (row + 1) (n - (row + 1)), ?_⟩
  have hlen : n = row + (n - (row + 1) + 1) := by omega
  rw [List.range_eq_range', List.range_eq_range', ← List.range'_succ]
  nth_rewrite 1 [hlen]
  rw [← List.range'_append_1, Nat.zero_add]

/-- A column is encoded row by row or not at all: no row of a column that fits panics, the batch
has the document of every row that is not null, and the first row that cannot be encoded fails the
whole call. -/
theorem encode_call_outcomes (crates : Crates) (floats : Floats) (col : ArrayRef)
    (hcol : Consistent col) (name : String) :
    (∀ row < col.len, RowOutcome crates floats col row (encodeDocument crates floats col row)) ∧
    ((∀ row < col.len, ∃ cell, encodeDocument crates floats col row = .ok cell) →
      ∃ out : List (Option (List UInt8)),
        List.Forall₂ (fun row cell => encodeDocument crates floats col row = .ok cell)
          (List.range col.len) out ∧
        Answers (Encode.process crates floats (boundSchema name .binary) col) .binary
          (out.map (nullOr .blob))) ∧
    ∀ row < col.len, ∀ e, (∀ row' < row, ∃ cell, encodeDocument crates floats col row' = .ok cell) →
      encodeDocument crates floats col row = .error e →
      Encode.process crates floats (boundSchema name .binary) col = .error e ∧
        ∃ msg, e = .error (.runtimeError msg) := by
  refine ⟨fun row hrow => rowOutcome_encodeDocument hcol hrow, ?_, ?_⟩
  · intro hrows
    obtain ⟨out, hout⟩ := exists_mapM (f := encodeDocument crates floats col)
      (l := List.range col.len) fun row hrow => hrows row (List.mem_range.mp hrow)
    refine ⟨out, mapM_eq_ok_iff.mp hout, ?_⟩
    rw [Encode.process, hout, ok_bind]
    exact answers_of_built (built_binaryArray out) name
  · intro row hrow e hbefore he
    obtain ⟨after, hsplit⟩ := range_split hrow
    refine ⟨?_, (rowOutcome_encodeDocument hcol hrow).error_is he⟩
    rw [Encode.process, hsplit, mapM_eq_first_error
      (fun row' hrow' => hbefore row' (List.mem_range.mp hrow')) he]
    rfl

theorem consistent_integerStruct : Consistent integerStruct := by
  have hnone (array : ArrayRef) (h : array.nulls = none) : Masked array :=
    ClockDelivery.masked_of_none h
  exact ⟨hnone _ rfl, rfl, ⟨hnone _ rfl, by decide⟩, trivial⟩

theorem encode_call_outcomes_integerStruct :
    RowOutcome formatCrates noFloats integerStruct 0
      (encodeDocument formatCrates noFloats integerStruct 0) :=
  (encode_call_outcomes formatCrates noFloats integerStruct consistent_integerStruct "doc").1 0
    (by decide)

end VgiBson.EncodedColumns
