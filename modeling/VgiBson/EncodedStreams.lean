import VgiBson.EncodedColumns
import VgiBson.SequenceTable

/-! # Streams of encoded rows

The encoded rows of a column, one after another, are a stream that can be split again: the documents
come back in order up to the first that is nested too deep for the validator. -/

namespace VgiBson.EncodedStreams

open MachineBytes CursorWalks StructuralValidator ValidatorGrammar BsonGrammar PrefixCodes
  BsonValues BsonEncoding ArrowColumns DocumentDecoding CrateAssumptions LengthEquations
  ColumnEncoding EncodedDocuments EncodedColumns ScalarColumns ScalarFunctions ScalarCalls
  SequenceSplitter ProducerRuns SequenceTable

variable {T : Target} {crates : Crates} {floats : Floats} {col : ArrayRef}

/-- The document has no more levels than the validator allows. -/
def shallow (doc : Document) : Bool := decide (levels (.document doc) ≤ maxNesting + 1)

/-- A storable document is one of the validator's, duplicate keys checked or not, when it is
shallow. -/
theorem shallow_iff {doc : Document} (hs : Storable (.document doc))
    (hlen : (documentBytes doc).length < 2 ^ 31) (checkDupes : Bool) :
    shallow doc = true ↔ Doc (rules checkDupes) 0 (documentBytes doc) := by
  have hadmits : Admits (rules checkDupes) := ⟨fun _ h _ => h, fun _ _ _ => trivial⟩
  have hpos : 0 < levels (.document doc) := Nat.succ_pos _
  rw [shallow, decide_eq_true_eq, doc_documentBytes_iff hadmits hs hlen]
  constructor
  · intro h j _ hj
    have hk : j ≤ maxNesting := by omega
    exact hk
  · intro h
    have hk : levels (.document doc) - 1 ≤ maxNesting := h _ (Nat.zero_le _) (by omega)
    omega

/-- A document that was split off again: it is valid, and decodes as what was encoded if the library
reads back what it wrote. -/
def Recovered (crates : Crates) (d : SeqDoc T) (doc : Document) : Prop :=
  d.doc.data = documentBytes doc ∧ validate d.doc = .ok () ∧
    (crates.fromReader (documentBytes doc) = .ok doc → decodeDocument crates d.doc = .ok doc)

theorem recovered_of_shallow {d : SeqDoc T} {doc : Document} (hs : Storable (.document doc))
    (hlen : (documentBytes doc).length < 2 ^ 31) (hshallow : shallow doc = true)
    (hd : d.doc.data = documentBytes doc) : Recovered crates d doc := by
  have hvalid : validate d.doc = .ok () :=
    (validate_documentBytes_iff hd hs (hd ▸ hlen)).mpr (of_decide_eq_true hshallow)
  refine ⟨hd, hvalid, ?_⟩
  intro hread
  exact (decodeDocument_eq_ok_iff crates).mpr ⟨precheck_of_validate hvalid, hd ▸ hread⟩

theorem forall₂_recovered {ds : List (Bytes T)} {docs : List Document} (i : ℕ)
    (hds : contents ds = docs.map documentBytes)
    (hdocs : ∀ doc ∈ docs, Storable (.document doc) ∧ (documentBytes doc).length < 2 ^ 31 ∧
      shallow doc = true) : List.Forall₂ (Recovered crates) (numbered i ds) docs := by
  induction ds generalizing i docs with
  | nil =>
    obtain rfl := List.map_eq_nil_iff.mp hds.symm
    exact .nil
  | cons d ds ih =>
    obtain ⟨doc, docs, rfl, hdoc, hrest⟩ := List.map_eq_cons_iff.mp hds.symm
    obtain ⟨hs, hlen, hshallow⟩ := hdocs doc List.mem_cons_self
    refine .cons (recovered_of_shallow hs hlen hshallow hdoc.symm) (ih (i + 1) hrest.symm ?_)
    exact fun doc' hdoc' => hdocs doc' (List.mem_cons_of_mem _ hdoc')

/-- A batch of encoded rows has all rows, and they could be addressed. -/
theorem encode_eq_ok {fields : List ResultField} {batch : ResultBatch}
    (h : Encode.process crates floats fields col = .ok batch) : ∃ cells,
      (List.range col.len).mapM (encodeDocument crates floats col) = .ok cells ∧
        batch.column = .binary cells ∧ (cells.map blobSize).sum ≤ maxOffset := by
  obtain ⟨cells, hcells, h⟩ := bind_eq_ok_iff.mp h
  exact ⟨cells, hcells, built_eq_ok h⟩

/-- A column whose rows are encoded one by one is encoded, if they have room. -/
theorem encode_rows {cells : List (Option (List UInt8))}
    (h : List.Forall₂ (fun row cell => encodeDocument crates floats col row = .ok cell)
      (List.range col.len) cells) (hfit : (cells.map blobSize).sum ≤ maxOffset) (name : String) :
    ∃ batch, Encode.process crates floats (boundSchema name .binary) col = .ok batch ∧
      batch.column = .binary cells := by
  rw [Encode.process, mapM_eq_ok_iff.mpr h]
  exact binaryArray_of_fits hfit name

end VgiBson.EncodedStreams
