import VgiBson.EncodedDocuments
import VgiBson.ProjectedKeys

/-! # Paths into encoded columns

A cell is an array and a row of it. A key or an index leads from a cell to a cell of a child array,
and reading the cells along the way is walking down the value of the first one. -/

namespace VgiBson.EncodedPaths

open MachineBytes CursorWalks StructuralValidator BsonValues BsonEncoding ArrowColumns
  DocumentDecoding CrateAssumptions LengthEquations FieldProjection ColumnEncoding EncodedDocuments
  InsertionOrder PathWalks DottedPaths ProjectedKeys

variable {crates : Crates} {floats : Floats} {α β ε : Type}

abbrev Cell := ArrayRef × ℕ

def holds (nulls : Nulls) (row : ℕ) : Bool :=
  match (isNull nulls row : Outcome Empty Bool) with
  | .ok null => !null
  | .error _ => false

/-- The rows of the child at `row`, none where the row is null. -/
def childRows (nulls : Nulls) (offsets : OffsetBuffer) (childLen row : ℕ) : List ℕ :=
  if holds nulls row then
    match (offsets.slice childLen row : Outcome Empty (List ℕ)) with
    | .ok rows => rows
    | .error _ => []
  else []

/-- The entry of a map has the key. -/
def hasKey (crates : Crates) (floats : Floats) (keys : ArrayRef) (name : String) (i : ℕ) : Bool :=
  match mapKey crates floats keys i with
  | .ok key => key = name
  | .error _ => false

/-- The cell one step further down. Of columns or entries with one key the last counts. -/
def cellChild (crates : Crates) (floats : Floats) : Cell → PathStep → Option Cell
  | (.struct _ nulls columns, row), .key name =>
    if holds nulls row then (columns.reverse.find? (·.1 = name)).map fun c => (c.2, row) else none
  | (.list nulls offsets values, row), .index i =>
    (childRows nulls offsets values.len row)[i]?.map fun row => (values, row)
  | (.map nulls offsets keys values, row), .key name =>
    ((childRows nulls offsets values.len row).reverse.find? (hasKey crates floats keys name)).map
      fun row => (values, row)
  | _, _ => none

/-- The cell is read as the value. -/
def ReadsAs (crates : Crates) (floats : Floats) (cell : Cell) (v : Bson) : Prop :=
  valueAt crates floats cell.1 cell.2 = .ok v

/-- Lists whose entries correspond, seen through tests that agree on them. -/
theorem find?_forall₂ {R : α → β → Prop} {p : α → Bool} {q : β → Bool}
    (hpq : ∀ a b, R a b → p a = q b) {l : List α} {l' : List β} (h : List.Forall₂ R l l') :
    Option.Rel R (l.find? p) (l'.find? q) := by
  induction h with
  | nil => exact .none
  | cons hab _ ih =>
    rw [List.find?_cons, List.find?_cons, hpq _ _ hab]
    split
    · exact .some hab
    · exact ih

/-- What is found after insertions into the empty document is the last entry with the key. -/
theorem child_insertAll {es : List (String × Bson)} {R : α → String × Bson → Prop}
    {S : α → Bson → Prop} {p : α → Bool} {name : String} {l : List α}
    (hp : ∀ a e, R a e → p a = decide (e.1 = name)) (hS : ∀ a e, R a e → S a e.2)
    (h : List.Forall₂ R l es) : Option.Rel S (l.reverse.find? p)
      (PathStep.child (.document (insertAll [] es)) (.key name)) := by
  have hfind := find?_forall₂ (q := fun e => decide (e.1 = name)) hp (List.rel_reverse h)
  rw [PathStep.child, find?_insertAll, List.find?_nil, Option.or_none]
  revert hfind
  generalize l.reverse.find? p = found
  generalize (es.reverse.find? fun e => decide (e.1 = name)) = found'
  intro hfind
  cases hfind with
  | some hR => exact .some (hS _ _ hR)
  | none => exact .none

/-- The loop over the columns of a struct inserts the cells of the row. -/
theorem insertColumns_eq_ok (hinsert : InsertReplaces crates) {columns : List (String × ArrayRef)}
    {row : ℕ} {doc doc' : Document} (h : insertColumns crates floats columns row doc = .ok doc') :
    ∃ es, doc' = insertAll doc es ∧
      List.Forall₂ (fun c e => e.1 = c.1 ∧ ReadsAs crates floats (c.2, row) e.2) columns es := by
  induction columns generalizing doc with
  | nil =>
    rw [insertColumns] at h
    cases h
    exact ⟨[], rfl, .nil⟩
  | cons c columns ih =>
    obtain ⟨name, column⟩ := c
    rw [insertColumns] at h
    obtain ⟨v, hv, h⟩ := bind_eq_ok_iff.mp h
    obtain ⟨es, hdoc, hes⟩ := ih h
    refine ⟨(name, v) :: es, ?_, .cons ⟨rfl, hv⟩ hes⟩
    rw [hdoc, hinsert]
    rfl

/-- The loop over the entries of a map inserts their values. -/
theorem foldlM_insert_eq_ok (hinsert : InsertReplaces crates) {keys values : ArrayRef}
    {rows : List ℕ} {doc doc' : Document}
    (h : rows.foldlM (fun doc i => do
      let key ← mapKey crates floats keys i
      let v ← valueAt crates floats values i
      return crates.insert doc key v) doc = .ok doc') :
    ∃ es, doc' = insertAll doc es ∧ List.Forall₂ (fun i e =>
      mapKey crates floats keys i = .ok e.1 ∧ ReadsAs crates floats (values, i) e.2) rows es := by
  induction rows generalizing doc with
  | nil =>
    cases h
    exact ⟨[], rfl, .nil⟩
  | cons i rows ih =>
    rw [List.foldlM_cons] at h
    obtain ⟨doc₁, hstep, h⟩ := bind_eq_ok_iff.mp h
    obtain ⟨key, hkey, hstep⟩ := bind_eq_ok_iff.mp hstep
    obtain ⟨v, hv, hstep⟩ := bind_eq_ok_iff.mp hstep
    cases hstep
    obtain ⟨es, hdoc, hes⟩ := ih h
    refine ⟨(key, v) :: es, ?_, .cons ⟨hkey, hv⟩ hes⟩
    rw [hdoc, hinsert]
    rfl

theorem holds_of_isNull {nulls : Nulls} {row : ℕ} {null : Bool}
    (h : (isNull nulls row : Outcome ε Bool) = .ok null) : holds nulls row = !null := by
  cases nulls with
  | none =>
    cases h
    rfl
  | some valid =>
    rw [isNull, element] at h
    rw [holds, isNull, element]
    cases hrow : valid[row]? with
    | none =>
      rw [hrow] at h
      cases h
    | some v =>
      rw [hrow] at h
      cases h
      rfl

theorem childRows_of_slice {nulls : Nulls} {offsets : OffsetBuffer} {childLen row : ℕ}
    {rows : List ℕ} (hnull : (isNull nulls row : Outcome ε Bool) = .ok false)
    (h : (offsets.slice childLen row : Outcome ε (List ℕ)) = .ok rows) :
    childRows nulls offsets childLen row = rows := by
  have hrows : (offsets.slice childLen row : Outcome Empty (List ℕ)) = .ok rows := by
    rw [OffsetBuffer.slice] at h ⊢
    split at h
    · split at h <;> cases h
      next hle => exact if_pos hle
    · cases h
  rw [childRows, holds_of_isNull hnull, hrows]
  rfl

theorem childRows_of_null {nulls : Nulls} {offsets : OffsetBuffer} {childLen row : ℕ}
    (hnull : (isNull nulls row : Outcome ε Bool) = .ok true) :
    childRows nulls offsets childLen row = [] := by
  rw [childRows, holds_of_isNull hnull]
  rfl

theorem rel_map_left {γ : Type} {R : γ → β → Prop} {f : α → γ} {a : Option α} {b : Option β}
    (h : Option.Rel (fun a b => R (f a) b) a b) : Option.Rel R (a.map f) b := by
  cases h with
  | some h => exact .some h
  | none => exact .none

theorem getElem?_forall₂ {R : α → β → Prop} {l : List α} {l' : List β} (h : List.Forall₂ R l l')
    (i : ℕ) : Option.Rel R l[i]? l'[i]? := by
  induction h generalizing i with
  | nil => exact .none
  | cons hab _ ih =>
    cases i with
    | zero => exact .some hab
    | succ i => exact ih i

theorem child_of_levels {v : Bson} (h : levels v ≤ 0) (step : PathStep) : step.child v = none := by
  cases v with
  | array items =>
    rw [levels] at h
    omega
  | document fields =>
    rw [levels] at h
    omega
  | _ => cases step <;> rfl

/-- A cell leads where its value leads. -/
theorem rel_child (hinsert : InsertReplaces crates) {cell : Cell} {v : Bson}
    (h : ReadsAs crates floats cell v) (step : PathStep) :
    Option.Rel (ReadsAs crates floats) (cellChild crates floats cell step) (step.child v) := by
  obtain ⟨array, row⟩ := cell
  have hnone {v : Bson} (hv : v = .null) : step.child v = none := by
    subst hv
    cases step <;> rfl
  cases array with
  | null len =>
    cases h
    rw [hnone rfl]
    cases step <;> exact .none
  | scalar ty nulls values =>
    have hlevels := (readsWithin_valueAt hinsert (.scalar ty nulls values) h).levels
    rw [child_of_levels hlevels step]
    cases step <;> exact .none
  | list nulls offsets values =>
    obtain ⟨null, hnull, h⟩ := bind_eq_ok_iff.mp h
    cases null with
    | true =>
      cases h
      rw [hnone rfl]
      cases step with
      | key name => exact .none
      | index i =>
        rw [cellChild, childRows_of_null hnull]
        exact .none
    | false =>
      obtain ⟨rows, hrows, h⟩ := bind_eq_ok_iff.mp h
      obtain ⟨out, hout, h⟩ := bind_eq_ok_iff.mp h
      cases h
      cases step with
      | key name => exact .none
      | index i =>
        rw [cellChild, childRows_of_slice hnull hrows]
        exact rel_map_left (getElem?_forall₂ (mapM_eq_ok_iff.mp hout) i)
  | struct len nulls columns =>
    obtain ⟨null, hnull, h⟩ := bind_eq_ok_iff.mp h
    cases null with
    | true =>
      cases h
      rw [hnone rfl]
      cases step with
      | key name =>
        rw [cellChild, holds_of_isNull hnull]
        exact .none
      | index i => exact .none
    | false =>
      obtain ⟨doc, hdoc, h⟩ := bind_eq_ok_iff.mp h
      cases h
      obtain ⟨es, rfl, hes⟩ := insertColumns_eq_ok hinsert hdoc
      cases step with
      | key name =>
        rw [cellChild, holds_of_isNull hnull]
        apply rel_map_left
        exact child_insertAll (fun c e he => by rw [he.1]) (fun c e he => he.2) hes
      | index i => exact .none
  | map nulls offsets keys values =>
    rw [ReadsAs, valueAt_map] at h
    obtain ⟨null, hnull, h⟩ := bind_eq_ok_iff.mp h
    cases null with
    | true =>
      cases h
      rw [hnone rfl]
      cases step with
      | key name =>
        rw [cellChild, childRows_of_null hnull]
        exact .none
      | index i => exact .none
    | false =>
      obtain ⟨rows, hrows, h⟩ := bind_eq_ok_iff.mp h
      obtain ⟨doc, hdoc, h⟩ := bind_eq_ok_iff.mp h
      cases h
      obtain ⟨es, rfl, hes⟩ := foldlM_insert_eq_ok hinsert hdoc
      cases step with
      | key name =>
        rw [cellChild, childRows_of_slice hnull hrows]
        apply rel_map_left
        exact child_insertAll (fun i e he => by rw [hasKey, he.1]) (fun i e he => he.2) hes
      | index i => exact .none
  | other debug len nulls =>
    obtain ⟨null, hnull, h⟩ := bind_eq_ok_iff.mp h
    cases null with
    | true =>
      cases h
      rw [hnone rfl]
      cases step <;> exact .none
    | false => cases h

/-- Following steps through the cells is following them down the value. -/
theorem rel_follow (hinsert : InsertReplaces crates) {cell : Cell} {v : Bson}
    (h : ReadsAs crates floats cell v) (steps : List PathStep) :
    Option.Rel (ReadsAs crates floats) (follow (cellChild crates floats) cell steps)
      (follow PathStep.child v steps) :=
  follow_rel (fun _ _ step hread => rel_child hinsert hread step) h steps

/-- A walk through the cells finds the value that the walk down the document finds. -/
theorem navigate_eq_some_iff_cell (hinsert : InsertReplaces crates) (hget : GetFinds crates)
    {T : Target} {cell : Cell} {v x : Bson} (h : ReadsAs crates floats cell v) {path : String} :
    navigate crates T v path = some x ↔
      ∃ steps, List.Forall₂ (PathStep.SpelledBy T) steps (segments path) ∧
        ∃ cell', follow (cellChild crates floats) cell steps = some cell' ∧
          ReadsAs crates floats cell' x := by
  rw [navigate_eq_some_iff hget]
  refine exists_congr fun steps => and_congr_right fun _ => ?_
  have hrel := rel_follow hinsert h steps
  revert hrel
  generalize follow (cellChild crates floats) cell steps = found
  generalize follow PathStep.child v steps = found'
  intro hrel
  cases hrel with
  | @some cell' x' hread =>
    constructor
    · intro hx
      exact ⟨cell', rfl, Option.some.inj hx ▸ hread⟩
    · intro hx
      obtain ⟨_, hcell, hx⟩ := hx
      cases hcell
      exact congrArg some (Except.ok.inj (hread.symm.trans hx))
  | none =>
    constructor
    · intro hx
      cases hx
    · intro hx
      obtain ⟨_, hcell, -⟩ := hx
      cases hcell

/-- Where the steps lead to a cell, the walk finds its value. -/
theorem navigate_of_follow (hinsert : InsertReplaces crates) (hget : GetFinds crates)
    {T : Target} {cell cell' : Cell} {v : Bson} (h : ReadsAs crates floats cell v) {path : String}
    {steps : List PathStep} (hsteps : List.Forall₂ (PathStep.SpelledBy T) steps (segments path))
    (hfollow : follow (cellChild crates floats) cell steps = some cell') :
    ∃ x, ReadsAs crates floats cell' x ∧ navigate crates T v path = some x := by
  have hrel := rel_follow hinsert h steps
  rw [hfollow] at hrel
  obtain ⟨x, hx⟩ : ∃ x, ReadsAs crates floats cell' x := by
    generalize follow PathStep.child v steps = found at hrel
    cases hrel with
    | some hx => exact ⟨_, hx⟩
  exact ⟨x, hx, (navigate_eq_some_iff_cell hinsert hget h).mpr ⟨steps, hsteps, cell', hfollow, hx⟩⟩

/-- A blob that is valid and read back is decoded to the document of its row. -/
theorem decode_of_encoded {col : ArrayRef} {row : ℕ} {T : Target} {b : Bytes T}
    (hencode : encodeDocument crates floats col row = .ok (some b.data))
    (hvalid : validate b = .ok ())
    (hback : ∀ doc, valueAt crates floats col row = .ok (.document doc) →
      crates.fromReader b.data = .ok doc) : ∃ doc,
    ReadsAs crates floats (col, row) (.document doc) ∧ decodeDocument crates b = .ok doc := by
  obtain ⟨doc, hread, -⟩ := encodeDocument_eq_ok hencode
  exact ⟨doc, hread,
    (decodeDocument_eq_ok_iff crates).mpr ⟨precheck_of_validate hvalid, hback doc hread⟩⟩

/-- Projecting from an encoded row reads a cell of the column: where the steps of a path lead
from the row to a cell, the projected value is the cell's and has its type; where none lead
anywhere, there is no value. -/
theorem projection_reads_cells (crates : Crates) (floats : Floats) (hinsert : InsertReplaces crates)
    (hget : GetFinds crates) (col : ArrayRef) (row : ℕ) (T : Target) (b : Bytes T)
    (hencode : encodeDocument crates floats col row = .ok (some b.data))
    (hvalid : validate b = .ok ())
    (hback : ∀ doc, valueAt crates floats col row = .ok (.document doc) →
      crates.fromReader b.data = .ok doc) (path : String) :
    (∀ steps cell, List.Forall₂ (PathStep.SpelledBy T) steps (segments path) →
      follow (cellChild crates floats) (col, row) steps = some cell →
      ∃ x, ReadsAs crates floats cell x ∧ typeOf crates b (some path) = .ok (some (typeName x)) ∧
        ∀ mode, field crates b path mode = some <$> coerce crates x mode) ∧
    ((∀ steps, List.Forall₂ (PathStep.SpelledBy T) steps (segments path) →
      follow (cellChild crates floats) (col, row) steps = none) →
      typeOf crates b (some path) = .ok none ∧ ∀ mode, field crates b path mode = .ok none) := by
  obtain ⟨doc, hcell, hdoc⟩ := decode_of_encoded hencode hvalid hback
  constructor
  · intro steps cell hsteps hfollow
    obtain ⟨x, hx, hnav⟩ := navigate_of_follow hinsert hget hcell hsteps hfollow
    refine ⟨x, hx, ?_, ?_⟩
    · rw [typeOf_of_decode hdoc, hnav, Option.map_some]
    · intro mode
      rw [field_of_decode hdoc, hnav]
  · intro hdead
    have hnav : navigate crates T (.document doc) path = none := by
      rw [Option.eq_none_iff_forall_ne_some]
      intro x hx
      obtain ⟨steps, hsteps, cell, hfollow, -⟩ :=
        (navigate_eq_some_iff_cell hinsert hget hcell).mp hx
      rw [hdead steps hsteps] at hfollow
      cases hfollow
    constructor
    · rw [typeOf_of_decode hdoc, hnav, Option.map_none]
    · intro mode
      rw [field_of_decode hdoc, hnav]

/-- The library that knows the document of the row. -/
noncomputable abbrev integerCrates : Crates := knownCrates [("a", .int32 5)]

/-- Its document is what the library writes for a row. -/
theorem encodeDocument_knownCrates {doc : Document} {floats : Floats} {array : ArrayRef} {row : ℕ}
    (hnull : (isNull array.nulls row : Outcome RpcError Bool) = .ok false)
    (hv : valueAt (knownCrates doc) floats array row = .ok (.document doc))
    (hnul : KeysNulFree (.document doc)) (hlen : (documentBytes doc).length < 2 ^ 31) :
    encodeDocument (knownCrates doc) floats array row = .ok (some (documentBytes doc)) :=
  encodeDocument_of_writes hnull hv (if_pos ⟨hnul, hlen⟩)

theorem encodeDocument_integerCrates :
    encodeDocument integerCrates noFloats integerStruct 0 = .ok (some integerBytes.data) :=
  encodeDocument_knownCrates rfl rfl ⟨by decide, trivial, trivial⟩ (by decide)

theorem fromReader_integerCrates (doc : Document)
    (h : valueAt integerCrates noFloats integerStruct 0 = .ok (.document doc)) :
    integerCrates.fromReader integerBytes.data = .ok doc := by
  obtain rfl : [("a", .int32 5)] = doc := by
    injection Except.ok.inj h
  exact fromReader_knownCrates _

theorem projection_reads_cells_integerStruct :
    ∃ x, ReadsAs integerCrates noFloats (.scalar .int32 none [5], 0) x ∧
      typeOf integerCrates integerBytes (some "a") = .ok (some (typeName x)) ∧
      ∀ mode, field integerCrates integerBytes "a" mode = some <$> coerce integerCrates x mode :=
  (projection_reads_cells integerCrates noFloats (fun _ _ _ => rfl) (fun _ _ => rfl) integerStruct
    0 .bits64 integerBytes encodeDocument_integerCrates (by decide +kernel)
    fromReader_integerCrates "a").1 [.key "a"] (.scalar .int32 none [5], 0) (.cons rfl .nil) rfl

end VgiBson.EncodedPaths
