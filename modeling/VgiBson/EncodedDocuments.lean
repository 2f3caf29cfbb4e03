import VgiBson.ColumnEncoding
import VgiBson.InsertionOrder
import VgiBson.LengthEquations

/-! # What the encoder emits

Every value read from a column has distinct keys throughout and no more levels than the column, so
what the encoder emits is a document of the format. The encoder has no limit on nesting and the
validator has one, which alone decides whether the validator accepts. -/

namespace VgiBson.EncodedDocuments

open MachineBytes CursorWalks StructuralValidator ValidatorGrammar BsonGrammar BsonValues
  BsonEncoding ArrowColumns DocumentDecoding CrateAssumptions LengthEquations ColumnEncoding
  InsertionOrder

variable {T : Target} {ε : Type}

mutual

/-- How many lists, structs and maps stand inside each other in the type of the array. -/
def nesting : ArrayRef → ℕ
  | .list _ _ values => nesting values + 1
  | .struct _ _ columns => nestingColumns columns + 1
  | .map _ _ _ values => nesting values + 1
  | _ => 0

def nestingColumns : List (String × ArrayRef) → ℕ
  | [] => 0
  | (_, column) :: columns => max (nesting column) (nestingColumns columns)

end

theorem keys_insertField (doc : Document) (key : String) (v : Bson) :
    (insertField doc key v).map Prod.fst =
      if key ∈ doc.map Prod.fst then doc.map Prod.fst else doc.map Prod.fst ++ [key] :=
  keys_insertEntry doc key v

theorem mem_insertField {doc : Document} {key : String} {v : Bson} {f : String × Bson}
    (h : f ∈ insertField doc key v) : f ∈ doc ∨ f = (key, v) := mem_insertEntry h

/-- Distinct keys in every document, cstrings without NUL, and at most `n` levels. -/
structure ReadsWithin (n : ℕ) (v : Bson) : Prop where
  keyed : Throughout List.Nodup StorableLeaf v
  levels : levels v ≤ n

namespace ReadsWithin

variable {n : ℕ} {v : Bson}

theorem mono {m : ℕ} (h : ReadsWithin n v) (hnm : n ≤ m) : ReadsWithin m v :=
  ⟨h.keyed, h.levels.trans hnm⟩

theorem null : ReadsWithin n .null := ⟨trivial, Nat.zero_le n⟩

theorem array {vs : List Bson} (h : ∀ v ∈ vs, ReadsWithin n v) :
    ReadsWithin (n + 1) (.array vs) := by
  constructor
  · simp only [Throughout, throughoutItems_iff]
    exact fun v hv => (h v hv).keyed
  · simp only [BsonValues.levels, Nat.add_le_add_iff_right, levelsItems_le_iff]
    exact fun v hv => (h v hv).levels

theorem document_iff {doc : Document} : ReadsWithin (n + 1) (.document doc) ↔
    (doc.map Prod.fst).Nodup ∧ ∀ f ∈ doc, ReadsWithin n f.2 := by
  constructor
  · intro h
    have hkeyed := h.keyed
    have hlevels := h.levels
    simp only [Throughout, throughoutFields_iff] at hkeyed
    simp only [BsonValues.levels, Nat.add_le_add_iff_right, levelsFields_le_iff] at hlevels
    exact ⟨hkeyed.1, fun f hf => ⟨hkeyed.2 f hf, hlevels f hf⟩⟩
  · intro h
    obtain ⟨hnodup, hfields⟩ := h
    constructor
    · simp only [Throughout, throughoutFields_iff]
      exact ⟨hnodup, fun f hf => (hfields f hf).keyed⟩
    · simp only [BsonValues.levels, Nat.add_le_add_iff_right, levelsFields_le_iff]
      exact fun f hf => (hfields f hf).levels

theorem empty : ReadsWithin (n + 1) (.document []) :=
  document_iff.mpr ⟨List.nodup_nil, fun _ hf => absurd hf List.not_mem_nil⟩

/-- An insertion keeps the keys distinct and adds no level. -/
theorem insertField {doc : Document} {key : String} (hdoc : ReadsWithin (n + 1) (.document doc))
    (hv : ReadsWithin n v) : ReadsWithin (n + 1) (.document (insertField doc key v)) := by
  rw [document_iff] at hdoc ⊢
  obtain ⟨hnodup, hfields⟩ := hdoc
  constructor
  · rw [keys_insertField]
    split
    · exact hnodup
    · next hnew => exact hnodup.append (List.nodup_singleton key) (by simpa using hnew)
  · intro f hf
    rcases mem_insertField hf with hold | rfl
    · exact hfields f hold
    · exact hv

end ReadsWithin

section Columns

variable {crates : Crates} {floats : Floats}

theorem readsWithin_scalarValue {ty : ScalarType} {x : ty.Value} {v : Bson}
    (h : (scalarValue crates floats ty x : Outcome ε Bson) = .ok v) : ReadsWithin 0 v := by
  cases ty with
  | uint64 =>
    cases h
    simp only [intFromU64]
    split
    · exact ⟨trivial, le_rfl⟩
    · split <;> exact ⟨trivial, le_rfl⟩
  | decimal128 scale =>
    obtain ⟨s, -, hs⟩ := bind_eq_ok_iff.mp h
    split at hs <;> cases hs <;> exact ⟨trivial, le_rfl⟩
  | _ =>
    cases h
    exact ⟨trivial, le_rfl⟩

/-- Past the null check a row is null or what its arm reads. -/
theorem null_or_of_ok {nulls : Nulls} {row : ℕ} {arm : Outcome ε Bson} {v : Bson}
    (h : (isNull nulls row >>= fun n => if n = true then pure Bson.null else arm) = .ok v) :
    v = .null ∨ arm = .ok v := by
  obtain ⟨n, -, hn⟩ := bind_eq_ok_iff.mp h
  cases n with
  | true =>
    cases hn
    exact .inl rfl
  | false => exact .inr hn

mutual

/-- What is read from an array has distinct keys and the nesting of the array. -/
theorem readsWithin_valueAt (hinsert : InsertReplaces crates) (array : ArrayRef) {row : ℕ}
    {v : Bson} (h : valueAt crates floats array row = .ok v) : ReadsWithin (nesting array) v := by
  cases array with
  | null len =>
    cases h
    exact .null
  | scalar ty nulls values =>
    rcases null_or_of_ok h with rfl | h
    · exact .null
    · obtain ⟨x, -, hx⟩ := bind_eq_ok_iff.mp h
      exact readsWithin_scalarValue hx
  | list nulls offsets values =>
    rcases null_or_of_ok h with rfl | h
    · exact .null
    · obtain ⟨rows, -, h⟩ := bind_eq_ok_iff.mp h
      obtain ⟨out, hout, h⟩ := bind_eq_ok_iff.mp h
      cases h
      exact .array (mapM_forall (fun i v hv => readsWithin_valueAt hinsert values hv) rows hout)
  | struct len nulls columns =>
    rcases null_or_of_ok h with rfl | h
    · exact .null
    · obtain ⟨doc, hdoc, h⟩ := bind_eq_ok_iff.mp h
      cases h
      exact readsWithin_insertColumns hinsert columns le_rfl .empty hdoc
  | map nulls offsets keys values =>
    rw [valueAt_map] at h
    rcases null_or_of_ok h with rfl | h
    · exact .null
    · obtain ⟨rows, -, h⟩ := bind_eq_ok_iff.mp h
      obtain ⟨doc, hdoc, h⟩ := bind_eq_ok_iff.mp h
      cases h
      refine foldlM_invariant (P := fun doc => ReadsWithin (nesting values + 1) (.document doc))
        (fun doc i doc' hd hi => ?_) rows .empty hdoc
      obtain ⟨key, -, hi⟩ := bind_eq_ok_iff.mp hi
      obtain ⟨x, hx, hi⟩ := bind_eq_ok_iff.mp hi
      cases hi
      rw [hinsert]
      exact hd.insertField (readsWithin_valueAt hinsert values hx)
  | other debug len nulls =>
    rcases null_or_of_ok h with rfl | h
    · exact .null
    · cases h

theorem readsWithin_insertColumns (hinsert : InsertReplaces crates)
    (columns : List (String × ArrayRef)) {n row : ℕ} {doc doc' : Document}
    (hn : nestingColumns columns ≤ n) (hdoc : ReadsWithin (n + 1) (.document doc))
    (h : insertColumns crates floats columns row doc = .ok doc') :
    ReadsWithin (n + 1) (.document doc') := by
  match columns with
  | [] =>
    cases h
    exact hdoc
  | (name, column) :: columns =>
    simp only [insertColumns] at h
    simp only [nestingColumns] at hn
    obtain ⟨v, hv, h⟩ := bind_eq_ok_iff.mp h
    refine readsWithin_insertColumns hinsert columns (by omega) ?_ h
    rw [hinsert]
    exact hdoc.insertField ((readsWithin_valueAt hinsert column hv).mono (by omega))

end

/-- A successful encoding is the writer's output on the document at the row. -/
theorem encodeDocument_eq_ok {array : ArrayRef} {row : ℕ} {out : List UInt8}
    (h : encodeDocument crates floats array row = .ok (some out)) :
    ∃ doc, valueAt crates floats array row = .ok (.document doc) ∧
      crates.toWriter doc = .ok out := by
  obtain ⟨n, -, h⟩ := bind_eq_ok_iff.mp h
  cases n with
  | true => cases h
  | false =>
    obtain ⟨v, hv, h⟩ := bind_eq_ok_iff.mp h
    cases v with
    | document doc =>
      obtain ⟨b, hb, h⟩ := bind_eq_ok_iff.mp h
      cases h
      refine ⟨doc, hv, ?_⟩
      cases hw : crates.toWriter doc with
      | ok b' =>
        rw [hw] at hb
        cases hb
        rfl
      | error e =>
        rw [hw] at hb
        cases hb
    | _ => cases h

/-- What the encoder emits is the encoding of a storable document. -/
theorem storable_of_encodeDocument (hwrite : WritesFormat crates) (hinsert : InsertReplaces crates)
    {array : ArrayRef} {row : ℕ} {out : List UInt8}
    (h : encodeDocument crates floats array row = .ok (some out)) :
    ∃ doc, valueAt crates floats array row = .ok (.document doc) ∧ Storable (.document doc) ∧
      levels (.document doc) ≤ nesting array ∧ out = documentBytes doc ∧ out.length < 2 ^ 31 := by
  obtain ⟨doc, hv, hw⟩ := encodeDocument_eq_ok h
  obtain ⟨hnul, hout, hlen⟩ := hwrite doc out hw
  have hread := readsWithin_valueAt hinsert array hv
  have hs : Storable (.document doc) :=
    Throughout.combine (fun _ hd hk => ⟨hd, hk⟩) (fun _ hl _ => hl) _ hread.keyed hnul
  exact ⟨doc, hv, hs, hread.levels, hout, hlen⟩

end Columns

/-- The encoder emits what the validator accepts, up to the validator's nesting limit, and the
decoder reads it then. -/
theorem encodeDocument_valid_iff (crates : Crates) (floats : Floats) (hread : ReadsFormat crates)
    (hwrite : WritesFormat crates) (hinsert : InsertReplaces crates) (array : ArrayRef) (row : ℕ)
    (b : Bytes T) (h : encodeDocument crates floats array row = .ok (some b.data)) :
    ∃ doc, valueAt crates floats array row = .ok (.document doc) ∧
      levels (.document doc) ≤ nesting array ∧
      (validate b = .ok () ↔ levels (.document doc) ≤ maxNesting + 1) ∧
      (levels (.document doc) ≤ maxNesting + 1 → ∃ doc', decodeDocument crates b = .ok doc') := by
  obtain ⟨doc, hv, hs, hlevels, hb, hlen⟩ := storable_of_encodeDocument hwrite hinsert h
  have hvalid := validate_documentBytes_iff hb hs hlen
  refine ⟨doc, hv, hlevels, hvalid, ?_⟩
  intro hn
  exact decode_documentBytes hread hb hs hlen (hvalid.mpr hn)

/-- Conversions for columns without floating-point numbers, which call none. -/
def noFloats : Floats := ⟨fun _ => 0, fun _ => 0, fun _ _ => 0⟩

/-- One row of a struct with the integer 5 under `a`, and its bytes. -/
def integerStruct : ArrayRef := .struct 1 none [("a", .scalar .int32 none [5])]

def integerBytes : Bytes .bits64 := ⟨documentBytes [("a", .int32 5)], by decide⟩

/-- What the writer emits for the document at the row is what encoding the row emits. -/
theorem encodeDocument_of_writes {crates : Crates} {floats : Floats} {array : ArrayRef} {row : ℕ}
    {doc : Document} {out : List UInt8}
    (hnull : (isNull array.nulls row : Outcome RpcError Bool) = .ok false)
    (hv : valueAt crates floats array row = .ok (.document doc))
    (hw : crates.toWriter doc = .ok out) :
    encodeDocument crates floats array row = .ok (some out) := by
  rw [encodeDocument, hnull, hv]
  simp only [bind, Except.bind, hw]
  rfl

/-- A document that the library can write is what encoding its row emits. -/
theorem encodeDocument_formatCrates {floats : Floats} {array : ArrayRef} {row : ℕ} {doc : Document}
    (hnull : (isNull array.nulls row : Outcome RpcError Bool) = .ok false)
    (hv : valueAt formatCrates floats array row = .ok (.document doc))
    (hs : Storable (.document doc)) (hlen : (documentBytes doc).length < 2 ^ 31) :
    encodeDocument formatCrates floats array row = .ok (some (documentBytes doc)) := by
  have hnul : KeysNulFree (.document doc) :=
    Throughout.combine (fun _ hd _ => hd.2) (fun _ _ _ => trivial) _ hs hs
  exact encodeDocument_of_writes hnull hv (if_pos ⟨hnul, hlen⟩)

theorem encodeDocument_integerStruct :
    encodeDocument formatCrates noFloats integerStruct 0 = .ok (some integerBytes.data) := by
  have hv : valueAt formatCrates noFloats integerStruct 0 = .ok (.document [("a", .int32 5)]) := rfl
  exact encodeDocument_formatCrates rfl hv ⟨⟨by decide, by decide⟩, trivial, trivial⟩ (by decide)

theorem encodeDocument_valid_integerStruct :
    ∃ doc, valueAt formatCrates noFloats integerStruct 0 = .ok (.document doc) ∧
      levels (.document doc) ≤ nesting integerStruct ∧
      (validate integerBytes = .ok () ↔ levels (.document doc) ≤ maxNesting + 1) ∧
      (levels (.document doc) ≤ maxNesting + 1 →
        ∃ doc', decodeDocument formatCrates integerBytes = .ok doc') :=
  encodeDocument_valid_iff formatCrates noFloats readsFormat_formatCrates
    writesFormat_formatCrates insertReplaces_formatCrates integerStruct 0 integerBytes
    encodeDocument_integerStruct

/-- One row of structs inside each other, one more than `n`. -/
def nestedStruct : ℕ → ArrayRef
  | 0 => .struct 1 none []
  | n + 1 => .struct 1 none [("a", nestedStruct n)]

theorem valueAt_nestedStruct {crates : Crates} (hinsert : InsertReplaces crates) (floats : Floats)
    (n : ℕ) : valueAt crates floats (nestedStruct n) 0 = .ok (.document (nestedDocument n)) := by
  induction n with
  | zero => rfl
  | succ n ih =>
    have hcolumns : insertColumns crates floats [("a", nestedStruct n)] 0 [] =
        .ok (nestedDocument (n + 1)) := by
      rw [insertColumns, ih]
      exact congrArg Except.ok (hinsert [] "a" _)
    rw [nestedStruct, valueAt, hcolumns]
    rfl

theorem nulls_nestedStruct (n : ℕ) : (nestedStruct n).nulls = none := by
  cases n <;> rfl

/-- The bytes of 258 structs inside each other. -/
def tooDeepBytes : Bytes .bits64 := ⟨documentBytes (nestedDocument 257), by
  rw [length_nestedDocument]
  decide⟩

/-- The encoder emits 258 structs inside each other, and the validator rejects them. -/
theorem encodeDocument_rejected_nestedStruct :
    ReadsFormat formatCrates ∧ WritesFormat formatCrates ∧ InsertReplaces formatCrates ∧
    encodeDocument formatCrates noFloats (nestedStruct 257) 0 = .ok (some tooDeepBytes.data) ∧
    validate tooDeepBytes ≠ .ok () := by
  have hs := storable_nestedDocument 257
  have hlen : (documentBytes (nestedDocument 257)).length < 2 ^ 31 := by
    rw [length_nestedDocument]
    decide
  refine ⟨readsFormat_formatCrates, writesFormat_formatCrates, insertReplaces_formatCrates, ?_, ?_⟩
  · have hnull : (isNull (nestedStruct 257).nulls 0 : Outcome RpcError Bool) = .ok false := by
      rw [nulls_nestedStruct]
      rfl
    exact encodeDocument_formatCrates hnull
      (valueAt_nestedStruct insertReplaces_formatCrates noFloats 257) hs hlen
  · intro hvalid
    have hlevels := (validate_documentBytes_iff rfl hs hlen).mp hvalid
    rw [levels_nestedDocument] at hlevels
    exact absurd hlevels (by decide)

end VgiBson.EncodedDocuments
