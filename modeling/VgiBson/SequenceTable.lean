import Mathlib.Algebra.Order.BigOperators.Group.List
import VgiBson.DumpReader

/-! # The table function over one stream

`bson_seq` splits its argument when the producer is made, and its first call hands out all documents
in one batch. Reading a directory of dumps is this, file by file. -/

namespace VgiBson.SequenceTable

open MachineBytes CursorWalks SequenceSplitter ArrowColumns ProducerRuns
open DumpReader (Host Row documents fileRows docBytes nameBytes)

variable {T : Target} {Path : Type}

def schema : List Field := [⟨"idx", .int64, false⟩, ⟨"doc", .binary, false⟩]

structure SeqProducer (T : Target) where
  schema : List Field
  docs : Option (List (SeqDoc T))

/-- `BsonSeq::producer`, given the bound schema and the constant argument if there is one. -/
def producer (outputSchema : List Field) (stream : Option (Bytes T)) :
    Outcome RpcError (SeqProducer T) := do
  let docs ← match stream with
    | some b => infallible (split b)
    | none => pure []
  pure ⟨outputSchema, some docs⟩

/-- The two column builders of a batch. -/
structure Builders (T : Target) where
  idx : List ℤ
  doc : ByteBuilder (Bytes.len : Bytes T → ℕ)

/-- The body of the loop: append one document. -/
def appendDoc (b : Builders T) (d : SeqDoc T) : Outcome RpcError (Builders T) := do
  let idx := b.idx ++ [d.idx]
  let doc ← b.doc.appendValue d.doc
  pure ⟨idx, doc⟩

/-- One call of `next_batch`, with the producer it leaves behind. -/
def nextBatch (self : SeqProducer T) :
    Outcome RpcError (Option (RecordBatch T)) × SeqProducer T :=
  match self.docs with
  | none => (.ok none, self)
  | some docs =>
    let self := { self with docs := none }
    let result := do
      let b ← docs.foldlM appendDoc ⟨[], .new⟩
      let columns := [.int64 b.idx, .binary b.doc.values]
      let batch ← fallible ((RecordBatch.tryNew self.schema columns).mapError .arrowError)
      pure (some batch)
    (result, self)

/-- The rows of a batch with the two columns of the schema. -/
def rowsOf (batch : RecordBatch T) : List (SeqDoc T) :=
  match batch.columns with
  | [.int64 is, .binary ds] => (is.zip ds).map fun r => ⟨r.1, r.2⟩
  | _ => []

/-- The loop over the documents is a loop of appends to the byte column. -/
theorem foldlM_appendDoc (docs : List (SeqDoc T)) (b : Builders T) :
    docs.foldlM appendDoc b = (do
      let doc ← (docs.map SeqDoc.doc).foldlM ByteBuilder.appendValue b.doc
      pure ⟨b.idx ++ docs.map SeqDoc.idx, doc⟩) := by
  induction docs generalizing b with
  | nil => simp
  | cons d docs ih =>
    rw [List.foldlM_cons, List.map_cons, List.foldlM_cons, appendDoc]
    cases b.doc.appendValue d.doc with
    | error e => rfl
    | ok doc =>
      refine (ih ⟨b.idx ++ [d.idx], doc⟩).trans ?_
      simp only [List.append_assoc, List.singleton_append, List.map_cons]
      rfl

theorem zip_docs (docs : List (SeqDoc T)) :
    ((docs.map SeqDoc.idx).zip (docs.map SeqDoc.doc)).map (fun r => (⟨r.1, r.2⟩ : SeqDoc T)) =
      docs := by
  induction docs with
  | nil => rfl
  | cons d docs ih => simp [ih]

/-- The data bytes of the documents. -/
def seqBytes (docs : List (SeqDoc T)) : ℕ := (docs.map fun d => d.doc.len).sum

theorem seqBytes_eq (docs : List (SeqDoc T)) :
    seqBytes docs = ((docs.map SeqDoc.doc).map Bytes.len).sum := by
  rw [seqBytes, List.map_map]
  rfl

/-- With room in the byte column the first call returns all documents. -/
theorem nextBatch_of_le {docs : List (SeqDoc T)} (h : seqBytes docs ≤ maxOffset) :
    ∃ batch, (nextBatch ⟨schema, some docs⟩).1 = .ok (some batch) ∧ rowsOf batch = docs := by
  have hroom : (ByteBuilder.new : ByteBuilder (Bytes.len : Bytes T → ℕ)).total +
      ((docs.map SeqDoc.doc).map Bytes.len).sum ≤ maxOffset := by
    rw [← seqBytes_eq]
    exact (Nat.zero_add _).trans_le h
  obtain ⟨doc, hdoc, hvalues⟩ := ByteBuilder.foldlM_appendValue_of_le (ε := RpcError) hroom
  have hdocs : doc.values = docs.map SeqDoc.doc := hvalues
  have hrun := foldlM_appendDoc docs ⟨[], .new⟩
  rw [hdoc] at hrun
  have htyped : ([.int64 (docs.map SeqDoc.idx), .binary doc.values] : List (Column T)).map
      Column.dataType = schema.map Field.dataType := rfl
  have haligned : ∀ c ∈ ([.int64 (docs.map SeqDoc.idx), .binary doc.values] : List (Column T)),
      c.length = docs.length := by
    simp [Column.length, hdocs]
  refine ⟨⟨schema, _, _, htyped, haligned⟩, ?_, ?_⟩
  · simp only [nextBatch, hrun]
    change (do
      let batch ← fallible ((RecordBatch.tryNew schema _).mapError .arrowError)
      pure (some batch) : Outcome RpcError _) = _
    rw [List.nil_append, RecordBatch.tryNew_of_aligned htyped haligned
      (congrArg some (List.length_map _))]
    rfl
  · simp only [rowsOf, hdocs]
    exact zip_docs docs

/-- Without it the first call panics. -/
theorem nextBatch_of_lt {docs : List (SeqDoc T)} (h : maxOffset < seqBytes docs) :
    (nextBatch ⟨schema, some docs⟩).1 = .error .panic := by
  have hroom : maxOffset < (ByteBuilder.new : ByteBuilder (Bytes.len : Bytes T → ℕ)).total +
      ((docs.map SeqDoc.doc).map Bytes.len).sum := by
    rw [← seqBytes_eq]
    exact h.trans_le (Nat.zero_add _).ge
  have hrun := foldlM_appendDoc docs ⟨[], .new⟩
  rw [ByteBuilder.foldlM_appendValue_of_lt hroom] at hrun
  simp only [nextBatch, hrun]
  rfl

theorem oneShot_nextBatch : OneShot (nextBatch (T := T)) fun p => p.docs = none := by
  constructor
  · intro p
    cases h : p.docs <;> simp [nextBatch, h]
  · intro p h
    simp [nextBatch, h]

/-- The documents of a stream are no longer than the stream. -/
theorem seqBytes_le {s : Bytes T} {docs : List (SeqDoc T)} (h : split s = .ok docs) :
    seqBytes docs ≤ s.len := by
  obtain ⟨ds, rest, hds, hs⟩ := split_factors s
  rw [h] at hs
  obtain rfl := Except.ok.inj hs
  have hlen := congrArg List.length hds.whole
  rw [List.length_append, List.length_flatten, contents, List.map_map] at hlen
  have hsum : (ds.map Bytes.len).sum = (ds.map (List.length ∘ Bytes.data)).sum := rfl
  rw [seqBytes_eq, map_doc_numbered, hsum, Bytes.len]
  omega

/-- The documents of a producer are returned at once, or are too many for the byte column. -/
theorem runs_of_docs (docs : List (SeqDoc T)) :
    (seqBytes docs ≤ maxOffset → ∃ batch,
      Returns (callAt nextBatch ⟨schema, some docs⟩) [batch] ∧ rowsOf batch = docs) ∧
    (maxOffset < seqBytes docs → callAt nextBatch ⟨schema, some docs⟩ 0 = .error .panic ∧
      ∀ n, callAt nextBatch ⟨schema, some docs⟩ (n + 1) = .ok none) := by
  constructor
  · intro h
    obtain ⟨batch, hbatch, hrows⟩ := nextBatch_of_le h
    exact ⟨batch, (oneShot_nextBatch.returns_singleton_iff _ _).mpr hbatch, hrows⟩
  · intro h
    exact ⟨nextBatch_of_lt h, oneShot_nextBatch.callAt_succ _⟩

theorem producer_of_split {s : Bytes T} {docs : List (SeqDoc T)} (h : split s = .ok docs) :
    producer schema (some s) = .ok ⟨schema, some docs⟩ := by
  rw [producer, h]
  rfl

/-- A run of `bson_seq`: it returns the documents of the stream in one batch and then nothing,
or panics at its first call, when they are more than 32-bit offsets can count. Without a stream
there are no documents. -/
theorem bson_seq_runs (stream : Option (Bytes T)) :
    ∃ docs p, producer schema stream = .ok p ∧ (stream = none → docs = []) ∧
      (∀ s, stream = some s → split s = .ok docs ∧ seqBytes docs ≤ s.len) ∧
      (seqBytes docs ≤ maxOffset → ∃ batch, Returns (callAt nextBatch p) [batch] ∧
        rowsOf batch = docs) ∧
      (maxOffset < seqBytes docs → callAt nextBatch p 0 = .error .panic ∧
        ∀ n, callAt nextBatch p (n + 1) = .ok none) := by
  cases stream with
  | none =>
    refine ⟨[], ⟨schema, some []⟩, rfl, fun _ => rfl, ?_, runs_of_docs []⟩
    intro s hs
    cases hs
  | some s =>
    obtain ⟨ds, rest, -, hs⟩ := split_factors s
    refine ⟨numbered 0 ds, _, producer_of_split hs, ?_, ?_, runs_of_docs (numbered 0 ds)⟩
    · intro hnone
      cases hnone
    · intro s' hs'
      cases hs'
      exact ⟨hs, seqBytes_le hs⟩

variable {host : Host T Path} {content : String → Bytes T} {files : List String}

/-- The rows of a document list, all from one file. -/
def labelled (file : String) (docs : List (SeqDoc T)) : List (Row T) :=
  docs.map fun d => ⟨d.idx, d.doc, file⟩

theorem fileRows_eq_labelled {file : String} {docs : List (SeqDoc T)}
    (h : split (content file) = .ok docs) : fileRows content file = labelled file docs := by
  obtain ⟨ds, rest, -, hs⟩ := split_factors (content file)
  rw [h] at hs
  obtain rfl := Except.ok.inj hs
  rw [labelled, DumpReader.map_numbered, fileRows, documents, h]
  simp only [map_doc_numbered, Nat.zero_add]

theorem seqBytes_le_docBytes {file : String} {docs : List (SeqDoc T)} (hfile : file ∈ files)
    (h : split (content file) = .ok docs) : seqBytes docs ≤ docBytes content files := by
  have hdocs : seqBytes docs = ((documents (content file)).map Bytes.len).sum := by
    rw [seqBytes_eq, documents, h]
  rw [hdocs, docBytes]
  exact List.single_le_sum (fun _ _ => Nat.zero_le _) _ (List.mem_map_of_mem hfile)

/-- A run of `bson_seq` over the content of a file that returned the batch. -/
def SequenceRun (content : String → Bytes T) (file : String) (batch : RecordBatch T) : Prop :=
  ∃ p, producer schema (some (content file)) = .ok p ∧ Returns (callAt nextBatch p) [batch]

/-- A file whose documents fit is a run of `bson_seq` with its rows. -/
theorem exists_sequenceRun {file : String} (hfile : file ∈ files)
    (h : docBytes content files ≤ maxOffset) : ∃ batch, SequenceRun content file batch ∧
      fileRows content file = labelled file (rowsOf batch) := by
  obtain ⟨ds, rest, -, hs⟩ := split_factors (content file)
  obtain ⟨batch, hbatch, hrows⟩ := (runs_of_docs _).1 ((seqBytes_le_docBytes hfile hs).trans h)
  exact ⟨batch, ⟨_, producer_of_split hs, hbatch⟩, by rw [fileRows_eq_labelled hs, hrows]⟩

/-- A dump reader that returns a batch had room for its documents. -/
theorem docBytes_le_of_returned (hread : ∀ f ∈ files, host.read f = .ok (content f))
    {batch : RecordBatch T}
    (h : callAt (DumpReader.nextBatch host) ⟨DumpReader.schema, files, false⟩ 0 =
      .ok (some batch)) :
    docBytes content files ≤ maxOffset ∧ DumpReader.rowsOf batch =
      files.flatMap (fileRows content) := by
  rw [callAt] at h
  by_cases hfit : docBytes content files ≤ maxOffset ∧ nameBytes content files ≤ maxOffset
  · obtain ⟨batch', hnext, hrows⟩ := DumpReader.nextBatch_of_le hread hfit.1 hfit.2
    rw [hnext] at h
    obtain rfl := Option.some.inj (Except.ok.inj h)
    exact ⟨hfit.1, hrows⟩
  · rw [DumpReader.nextBatch_of_lt hread (by omega)] at h
    cases h

/-- Reading a dump is splitting its files: a batch of `mongodump_read` holds, file after file,
the rows that `bson_seq` returns for the content of the file, each with the name of the file. -/
theorem dump_is_sequences (host : Host T Path) (content : String → Bytes T) (files : List String)
    (hread : ∀ f ∈ files, host.read f = .ok (content f)) (batch : RecordBatch T)
    (h : callAt (DumpReader.nextBatch host) ⟨DumpReader.schema, files, false⟩ 0 =
      .ok (some batch)) :
    ∃ batches, List.Forall₂ (SequenceRun content) files batches ∧
      DumpReader.rowsOf batch =
        (List.zipWith (fun f b => labelled f (rowsOf b)) files batches).flatten := by
  obtain ⟨hfit, hrows⟩ := docBytes_le_of_returned hread h
  have hruns : ∀ fs, (∀ f ∈ fs, f ∈ files) → ∃ batches,
      List.Forall₂ (SequenceRun content) fs batches ∧ fs.flatMap (fileRows content) =
        (List.zipWith (fun f b => labelled f (rowsOf b)) fs batches).flatten := by
    intro fs hfs
    induction fs with
    | nil => exact ⟨[], .nil, rfl⟩
    | cons f fs ih =>
      obtain ⟨b, hb, hf⟩ := exists_sequenceRun (hfs f List.mem_cons_self) hfit
      obtain ⟨bs, hbs, hrest⟩ := ih fun g hg => hfs g (List.mem_cons_of_mem _ hg)
      refine ⟨b :: bs, .cons hb hbs, ?_⟩
      rw [List.flatMap_cons, hf, hrest, List.zipWith_cons_cons, List.flatten_cons]
  rw [hrows]
  exact hruns files fun f hf => hf

theorem dump_is_sequences_twoFiles :
    ∃ batch, callAt (DumpReader.nextBatch DumpReader.twoFiles)
        ⟨DumpReader.schema, ["a.bson", "b.bson"], false⟩ 0 = .ok (some batch) ∧
      ∃ batches,
        List.Forall₂ (SequenceRun DumpReader.dumpContent) ["a.bson", "b.bson"] batches ∧
        DumpReader.rowsOf batch = (List.zipWith (fun f b => labelled f (rowsOf b))
          ["a.bson", "b.bson"] batches).flatten := by
  obtain ⟨batch, hbatch⟩ := DumpReader.exists_batch_twoFiles
  exact ⟨batch, hbatch, dump_is_sequences DumpReader.twoFiles DumpReader.dumpContent
    ["a.bson", "b.bson"] (fun _ _ => rfl) batch hbatch⟩

end VgiBson.SequenceTable
