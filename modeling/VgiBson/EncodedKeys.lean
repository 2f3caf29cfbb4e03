import VgiBson.EncodedPaths

/-! # The keys of an encoded row

The keys of a row are the names of its columns, or the keys of its map, in the order in which they
first occur. -/

namespace VgiBson.EncodedKeys

open MachineBytes CursorWalks StructuralValidator BsonValues BsonEncoding ArrowColumns
  DocumentDecoding CrateAssumptions LengthEquations FieldProjection ColumnEncoding EncodedDocuments
  InsertionOrder PathWalks DottedPaths ProjectedKeys EncodedPaths

variable {crates : Crates} {floats : Floats} {T : Target}

/-- The names under a cell, repeated as they are in the column. -/
def cellNames (crates : Crates) (floats : Floats) : Cell → List String
  | (.struct _ nulls columns, row) => if holds nulls row then columns.map Prod.fst else []
  | (.map nulls offsets keys values, row) =>
    (childRows nulls offsets values.len row).filterMap fun i =>
      (mapKey crates floats keys i).toOption
  | _ => []

theorem hasKey_iff {keys : ArrayRef} {name : String} {i : ℕ} :
    hasKey crates floats keys name i = true ↔
      (mapKey crates floats keys i).toOption = some name := by
  rw [hasKey]
  cases mapKey crates floats keys i with
  | ok key => simp [Except.toOption]
  | error e => simp [Except.toOption]

/-- The names are those that lead to a cell. -/
theorem mem_cellNames_iff {cell : Cell} {name : String} : name ∈ cellNames crates floats cell ↔
    ∃ child, cellChild crates floats cell (.key name) = some child := by
  obtain ⟨array, row⟩ := cell
  rw [← Option.isSome_iff_exists]
  cases array with
  | struct len nulls columns =>
    rw [cellNames, cellChild]
    split
    · simp [List.mem_map]
    · simp
  | map nulls offsets keys values =>
    rw [cellNames, cellChild]
    simp [List.mem_filterMap, hasKey_iff]
  | _ => simp [cellNames, cellChild]

theorem filterMap_of_forall₂ {α β γ : Type} {R : α → β → Prop} {f : α → Option γ} {g : β → γ}
    (hfg : ∀ a b, R a b → f a = some (g b)) {l : List α} {l' : List β} (h : List.Forall₂ R l l') :
    l.filterMap f = l'.map g := by
  induction h with
  | nil => rfl
  | cons hab _ ih => rw [List.filterMap_cons_some (hfg _ _ hab), ih, List.map_cons]

/-- What is read at a cell that is a document has its names as keys. -/
theorem keys_of_readsAs (hinsert : InsertReplaces crates) {cell : Cell} {doc : Document}
    (h : ReadsAs crates floats cell (.document doc)) :
    doc.map Prod.fst = (cellNames crates floats cell).eraseDups := by
  obtain ⟨array, row⟩ := cell
  cases array with
  | null len => cases h
  | scalar ty nulls values =>
    have hlevels := (readsWithin_valueAt hinsert (.scalar ty nulls values) h).levels
    rw [levels] at hlevels
    cases hlevels
  | list nulls offsets values =>
    rcases null_or_of_ok h with hnull | h
    · cases hnull
    · obtain ⟨rows, -, h⟩ := bind_eq_ok_iff.mp h
      obtain ⟨out, -, h⟩ := bind_eq_ok_iff.mp h
      cases h
  | struct len nulls columns =>
    obtain ⟨null, hnull, h⟩ := bind_eq_ok_iff.mp h
    cases null with
    | true => cases h
    | false =>
      obtain ⟨doc', hdoc, h⟩ := bind_eq_ok_iff.mp h
      cases h
      obtain ⟨es, rfl, hes⟩ := insertColumns_eq_ok hinsert hdoc
      have hnames : columns.filterMap (some ∘ Prod.fst) = es.map Prod.fst :=
        filterMap_of_forall₂ (fun c e he => congrArg some he.1.symm) hes
      rw [List.filterMap_eq_map] at hnames
      rw [keys_insertAll, cellNames, holds_of_isNull hnull, ← hnames]
      rfl
  | map nulls offsets keys values =>
    rw [ReadsAs, valueAt_map] at h
    obtain ⟨null, hnull, h⟩ := bind_eq_ok_iff.mp h
    cases null with
    | true => cases h
    | false =>
      obtain ⟨rows, hrows, h⟩ := bind_eq_ok_iff.mp h
      obtain ⟨doc', hdoc, h⟩ := bind_eq_ok_iff.mp h
      cases h
      obtain ⟨es, rfl, hes⟩ := foldlM_insert_eq_ok hinsert hdoc
      have hnames : rows.filterMap (fun i => (mapKey crates floats keys i).toOption) =
          es.map Prod.fst :=
        filterMap_of_forall₂ (fun i e he => congrArg Except.toOption he.1) hes
      rw [keys_insertAll, cellNames, childRows_of_slice hnull hrows, hnames]
  | other debug len nulls =>
    rcases null_or_of_ok h with hnull | h
    · cases hnull
    · cases h

/-- The keys of an encoded row are its names: those that lead to a cell of the row, each once
and in the order of their first occurrence in the column. -/
theorem encoded_keys_in_order (crates : Crates) (floats : Floats) (hinsert : InsertReplaces crates)
    (hkeys : KeysInOrder crates) (col : ArrayRef) (row : ℕ) (T : Target) (b : Bytes T)
    (hencode : encodeDocument crates floats col row = .ok (some b.data))
    (hvalid : validate b = .ok ())
    (hback : ∀ doc, valueAt crates floats col row = .ok (.document doc) →
      crates.fromReader b.data = .ok doc) :
    keys crates b = .ok (cellNames crates floats (col, row)).eraseDups ∧
      ∀ name, name ∈ (cellNames crates floats (col, row)).eraseDups ↔
        ∃ child, cellChild crates floats (col, row) (.key name) = some child := by
  obtain ⟨doc, hcell, hdoc⟩ := decode_of_encoded hencode hvalid hback
  constructor
  · rw [← keys_of_readsAs hinsert hcell, keys, hdoc, ← hkeys]
    rfl
  · intro name
    rw [List.mem_eraseDups]
    exact mem_cellNames_iff

/-- One row of a map that has a key twice. -/
def repeatedMap : ArrayRef :=
  .map none ⟨[0, 3], by decide⟩ (.scalar .utf8 none ["b", "a", "b"]) (.scalar .int32 none [1, 2, 3])

/-- Its document: the key stays where it was, with the later value. -/
def repeatedDocument : Document := [("b", .int32 3), ("a", .int32 2)]

def repeatedBytes : Bytes .bits64 := ⟨documentBytes repeatedDocument, by decide⟩

theorem encoded_keys_in_order_repeatedMap :
    keys (knownCrates repeatedDocument) repeatedBytes = .ok ["b", "a"] ∧
      ∀ name, name ∈ ["b", "a"] ↔ ∃ child,
        cellChild (knownCrates repeatedDocument) noFloats (repeatedMap, 0) (.key name) =
          some child := by
  have hv : valueAt (knownCrates repeatedDocument) noFloats repeatedMap 0 =
      .ok (.document repeatedDocument) := rfl
  have hnul : KeysNulFree (.document repeatedDocument) := ⟨by decide, trivial, trivial, trivial⟩
  have hencode : encodeDocument (knownCrates repeatedDocument) noFloats repeatedMap 0 =
      .ok (some repeatedBytes.data) := encodeDocument_knownCrates rfl hv hnul (by decide)
  refine encoded_keys_in_order (knownCrates repeatedDocument) noFloats (fun _ _ _ => rfl)
    (keysInOrder_knownCrates _) repeatedMap 0 .bits64 repeatedBytes hencode (by decide +kernel) ?_
  intro doc hdoc
  rw [hv] at hdoc
  cases hdoc
  exact fromReader_knownCrates _

end VgiBson.EncodedKeys
