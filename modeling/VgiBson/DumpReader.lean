import VgiBson.ArrowColumns
import VgiBson.ProducerRuns
import VgiBson.SequenceSplitter

/-! # Reading a directory of dumped documents

`mongodump_read` expands a glob, reads every file, splits it and gathers all rows into one batch.
The nested loops over files and documents are one loop over the expected rows. -/

namespace VgiBson.DumpReader

open MachineBytes CursorWalks SequenceSplitter ArrowColumns ProducerRuns

variable {T : Target} {Path : Type}

/-- What the reader asks of the system it runs on: the matches of a glob (an entry that could not
be read has no path), which paths are files, their names as text and their contents. -/
structure Host (T : Target) (Path : Type) where
  glob : String → Except String (List (Option Path))
  isFile : Path → Bool
  toStringLossy : Path → String
  read : String → Except String (Bytes T)

def schema : List Field :=
  [⟨"idx", .int64, false⟩, ⟨"doc", .binary, false⟩, ⟨"file", .utf8, false⟩]

/-- The order of strings: that of their bytes. -/
def stringLe (a b : String) : Bool := decide (utf8 a ≤ utf8 b)

/-- The names of the files that a glob matches, in the order of the matches. -/
def matchedFiles (host : Host T Path) (paths : List (Option Path)) : List String :=
  ((paths.filterMap id).filter host.isFile).map host.toStringLossy

/-- Expand a local-filesystem glob into a sorted list of matching paths. -/
def expandGlob (host : Host T Path) (pattern : String) : Except RpcError (List String) :=
  match host.glob pattern with
  | .ok paths => .ok ((matchedFiles host paths).mergeSort stringLe)
  | .error e => .error (.valueError s!"invalid glob: {e}")

structure DumpProducer where
  schema : List Field
  files : List String
  done : Bool

/-- `MongodumpRead::producer`, given the bound schema and the constant argument if there is one. -/
def producer (host : Host T Path) (outputSchema : List Field) (glob : Option String) :
    Except RpcError DumpProducer :=
  match glob with
  | none => .error (.valueError "mongodump_read: a constant glob is required")
  | some pattern => (expandGlob host pattern).map fun files => ⟨outputSchema, files, false⟩

/-- The three column builders of a batch. -/
structure Builders (T : Target) where
  idx : List ℤ
  doc : ByteBuilder (Bytes.len : Bytes T → ℕ)
  file : ByteBuilder (fun s : String => (utf8 s).length)

def Builders.new : Builders T := ⟨[], .new, .new⟩

/-- The body of the inner loop: append one document of `path`. -/
def appendDoc (path : String) (b : Builders T) (d : SeqDoc T) : Outcome RpcError (Builders T) := do
  let idx := b.idx ++ [d.idx]
  let doc ← b.doc.appendValue d.doc
  let file ← b.file.appendValue path
  pure ⟨idx, doc, file⟩

/-- The body of the outer loop: read, split and append one file. -/
def appendFile (host : Host T Path) (b : Builders T) (path : String) :
    Outcome RpcError (Builders T) := do
  let bytes ← fallible ((host.read path).mapError fun e => .runtimeError s!"read {path}: {e}")
  let docs ← infallible (split bytes)
  docs.foldlM (appendDoc path) b

/-- One call of `next_batch`, with the producer it leaves behind. -/
def nextBatch (host : Host T Path) (self : DumpProducer) :
    Outcome RpcError (Option (RecordBatch T)) × DumpProducer :=
  if self.done then (.ok none, self) else
  let self := { self with done := true }
  let result := do
    let b ← self.files.foldlM (appendFile host) .new
    let columns := [.int64 b.idx, .binary b.doc.values, .utf8 b.file.values]
    let batch ← fallible ((RecordBatch.tryNew self.schema columns).mapError .arrowError)
    pure (some batch)
  (result, self)

/-- A row of the result. -/
structure Row (T : Target) where
  idx : ℤ
  doc : Bytes T
  file : String
  deriving DecidableEq, Repr

/-- The rows of a batch with the three columns of the schema. -/
def rowsOf (batch : RecordBatch T) : List (Row T) :=
  match batch.columns with
  | [.int64 is, .binary ds, .utf8 fs] => (is.zip (ds.zip fs)).map fun r => ⟨r.1, r.2.1, r.2.2⟩
  | _ => []

/-- The calls return batches with these rows in this order, and then `Ok(None)` for ever. -/
def Delivers (calls : ℕ → Outcome RpcError (Option (RecordBatch T))) (rows : List (Row T)) : Prop :=
  ∃ batches : List (RecordBatch T), Returns calls batches ∧ rows = batches.flatMap rowsOf

/-- The documents of a stream, in order. -/
def documents (s : Bytes T) : List (Bytes T) :=
  match split s with
  | .ok docs => docs.map SeqDoc.doc
  | .error _ => []

/-- The rows a file should give: its documents with their positions. -/
def fileRows (content : String → Bytes T) (file : String) : List (Row T) :=
  (documents (content file)).mapIdx fun i d => ⟨i, d, file⟩

/-- The data bytes of all documents of the files. -/
def docBytes (content : String → Bytes T) (files : List String) : ℕ :=
  (files.map fun f => ((documents (content f)).map Bytes.len).sum).sum

/-- The data bytes of all file names, one for each document. -/
def nameBytes (content : String → Bytes T) (files : List String) : ℕ :=
  (files.map fun f => (documents (content f)).length * (utf8 f).length).sum

/-- Append one row to the builders. -/
def appendRow (b : Builders T) (r : Row T) : Outcome RpcError (Builders T) :=
  appendDoc r.file b ⟨r.idx, r.doc⟩

theorem map_numbered (file : String) (i : ℕ) (ds : List (Bytes T)) :
    (numbered i ds).map (fun d => (⟨d.idx, d.doc, file⟩ : Row T)) =
      ds.mapIdx fun j d => ⟨((i + j : ℕ) : ℤ), d, file⟩ := by
  induction ds generalizing i with
  | nil => rfl
  | cons d ds ih =>
    rw [numbered, List.map_cons, ih, List.mapIdx_cons]
    simp only [Nat.add_zero, Nat.add_comm, Nat.add_left_comm]

/-- Splitting a file and appending its documents appends its rows. -/
theorem appendFile_eq {host : Host T Path} {content : String → Bytes T} {file : String}
    (hread : host.read file = .ok (content file)) (b : Builders T) :
    appendFile host b file = (fileRows content file).foldlM appendRow b := by
  obtain ⟨ds, rest, -, hsplit⟩ := split_factors (content file)
  have hdocs : documents (content file) = ds := by
    simp only [documents, hsplit, map_doc_numbered]
  have hrows : fileRows content file =
      (numbered 0 ds).map fun d => ⟨d.idx, d.doc, file⟩ := by
    rw [map_numbered, fileRows, hdocs]
    simp only [Nat.zero_add]
  have hfile : appendFile host b file =
      (infallible (split (content file)) >>= fun docs => docs.foldlM (appendDoc file) b) := by
    rw [appendFile, hread]
    rfl
  rw [hfile, hsplit, hrows, List.foldlM_map]
  rfl

theorem foldlM_appendFile {host : Host T Path} {content : String → Bytes T} {files : List String}
    (hread : ∀ f ∈ files, host.read f = .ok (content f)) (b : Builders T) :
    files.foldlM (appendFile host) b = (files.flatMap (fileRows content)).foldlM appendRow b := by
  induction files generalizing b with
  | nil => rfl
  | cons f files ih =>
    rw [List.foldlM_cons, List.flatMap_cons, List.foldlM_append,
      appendFile_eq (hread f List.mem_cons_self)]
    congr 1
    funext b'
    exact ih (fun g hg => hread g (List.mem_cons_of_mem _ hg)) b'

/-- The data bytes that rows put into the two byte columns. -/
def rowDocBytes (rows : List (Row T)) : ℕ := (rows.map fun r => r.doc.len).sum

def rowNameBytes (rows : List (Row T)) : ℕ := (rows.map fun r => (utf8 r.file).length).sum

/-- Appending rows succeeds as long as both byte columns have room. -/
theorem foldlM_appendRow_of_le (rows : List (Row T)) (b : Builders T)
    (hdoc : b.doc.total + rowDocBytes rows ≤ maxOffset)
    (hfile : b.file.total + rowNameBytes rows ≤ maxOffset) :
    ∃ b', rows.foldlM appendRow b = .ok b' ∧ b'.idx = b.idx ++ rows.map Row.idx ∧
      b'.doc.values = b.doc.values ++ rows.map Row.doc ∧
      b'.file.values = b.file.values ++ rows.map Row.file := by
  induction rows generalizing b with
  | nil => exact ⟨b, rfl, by simp⟩
  | cons r rows ih =>
    simp only [rowDocBytes, rowNameBytes, List.map_cons, List.sum_cons] at hdoc hfile
    obtain ⟨doc, hd, hdv, hdt⟩ := ByteBuilder.appendValue_of_le (ε := RpcError) (b := b.doc)
      (v := r.doc) (by omega)
    obtain ⟨file, hf, hfv, hft⟩ := ByteBuilder.appendValue_of_le (ε := RpcError) (b := b.file)
      (v := r.file) (by omega)
    have hstep : appendRow b r = .ok ⟨b.idx ++ [r.idx], doc, file⟩ := by
      simp only [appendRow, appendDoc, hd, hf]
      rfl
    obtain ⟨b', hrun, hidx, hdocs, hfiles⟩ := ih ⟨b.idx ++ [r.idx], doc, file⟩
      (by simp only [hdt, rowDocBytes]; omega) (by simp only [hft, rowNameBytes]; omega)
    refine ⟨b', ?_, ?_, ?_, ?_⟩
    · rw [List.foldlM_cons, hstep]
      exact hrun
    · simp [hidx]
    · simp [hdocs, hdv]
    · simp [hfiles, hfv]

/-- Without room in one of them, appending the rows panics. -/
theorem foldlM_appendRow_of_lt (rows : List (Row T)) (b : Builders T)
    (h : maxOffset < b.doc.total + rowDocBytes rows ∨
      maxOffset < b.file.total + rowNameBytes rows) :
    rows.foldlM appendRow b = .error .panic := by
  induction rows generalizing b with
  | nil =>
    have hdoc := b.doc.fits
    have hfile := b.file.fits
    simp only [rowDocBytes, rowNameBytes, ByteBuilder.total, List.map_nil, List.sum_nil] at h
    omega
  | cons r rows ih =>
    simp only [rowDocBytes, rowNameBytes, List.map_cons, List.sum_cons] at h
    rw [List.foldlM_cons]
    by_cases hd : b.doc.total + r.doc.len ≤ maxOffset
    · obtain ⟨doc, hdoc, -, hdt⟩ := ByteBuilder.appendValue_of_le (ε := RpcError) hd
      by_cases hf : b.file.total + (utf8 r.file).length ≤ maxOffset
      · obtain ⟨file, hfile, -, hft⟩ := ByteBuilder.appendValue_of_le (ε := RpcError)
          (b := b.file) (v := r.file) hf
        have hstep : appendRow b r = .ok ⟨b.idx ++ [r.idx], doc, file⟩ := by
          simp only [appendRow, appendDoc, hdoc, hfile]
          rfl
        rw [hstep]
        apply ih
        simp only [hdt, hft, rowDocBytes, rowNameBytes]
        omega
      · have hstep : appendRow b r = .error .panic := by
          simp only [appendRow, appendDoc, hdoc,
            ByteBuilder.appendValue_of_lt (Nat.not_le.mp hf)]
          rfl
        rw [hstep]
        rfl
    · have hstep : appendRow b r = .error .panic := by
        simp only [appendRow, appendDoc, ByteBuilder.appendValue_of_lt (Nat.not_le.mp hd)]
        rfl
      rw [hstep]
      rfl

theorem map_doc_fileRows (content : String → Bytes T) (file : String) :
    (fileRows content file).map Row.doc = documents (content file) := by
  apply List.ext_getElem
  · simp [fileRows]
  · intro i _ _
    simp [fileRows]

theorem map_file_fileRows (content : String → Bytes T) (file : String) :
    (fileRows content file).map Row.file =
      List.replicate (documents (content file)).length file := by
  simp [fileRows, List.eq_replicate_iff]

theorem rowDocBytes_flatMap (content : String → Bytes T) (files : List String) :
    rowDocBytes (files.flatMap (fileRows content)) = docBytes content files := by
  induction files with
  | nil => rfl
  | cons f files ih =>
    simp only [rowDocBytes, docBytes, List.flatMap_cons, List.map_append, List.sum_append,
      List.map_cons, List.sum_cons] at ih ⊢
    rw [ih, ← map_doc_fileRows, List.map_map]
    rfl

theorem rowNameBytes_flatMap (content : String → Bytes T) (files : List String) :
    rowNameBytes (files.flatMap (fileRows content)) = nameBytes content files := by
  induction files with
  | nil => rfl
  | cons f files ih =>
    have hf : (fileRows content f).map (fun r => (utf8 r.file).length) =
        ((fileRows content f).map Row.file).map fun s => (utf8 s).length := by
      rw [List.map_map]
      rfl
    simp only [rowNameBytes, nameBytes, List.flatMap_cons, List.map_append, List.sum_append,
      List.map_cons, List.sum_cons] at ih ⊢
    rw [ih, hf, map_file_fileRows, List.map_replicate, List.sum_replicate_nat]

theorem zip_columns (rows : List (Row T)) :
    ((rows.map Row.idx).zip ((rows.map Row.doc).zip (rows.map Row.file))).map
      (fun r => (⟨r.1, r.2.1, r.2.2⟩ : Row T)) = rows := by
  induction rows with
  | nil => rfl
  | cons r rows ih => simp [ih]

variable {host : Host T Path} {content : String → Bytes T} {files : List String}

/-- With room in both byte columns the loop over the files gathers all rows. -/
theorem foldlM_appendFile_of_le (hread : ∀ f ∈ files, host.read f = .ok (content f))
    (hdoc : docBytes content files ≤ maxOffset) (hname : nameBytes content files ≤ maxOffset) :
    ∃ b, files.foldlM (appendFile host) .new = .ok b ∧
      b.idx = (files.flatMap (fileRows content)).map Row.idx ∧
      b.doc.values = (files.flatMap (fileRows content)).map Row.doc ∧
      b.file.values = (files.flatMap (fileRows content)).map Row.file := by
  rw [← rowDocBytes_flatMap] at hdoc
  rw [← rowNameBytes_flatMap] at hname
  rw [foldlM_appendFile hread]
  exact foldlM_appendRow_of_le (files.flatMap (fileRows content)) .new
    ((Nat.zero_add _).trans_le hdoc) ((Nat.zero_add _).trans_le hname)

/-- Without it the loop panics. -/
theorem foldlM_appendFile_of_lt (hread : ∀ f ∈ files, host.read f = .ok (content f))
    (h : maxOffset < docBytes content files ∨ maxOffset < nameBytes content files) :
    files.foldlM (appendFile host) .new = .error .panic := by
  rw [← rowDocBytes_flatMap, ← rowNameBytes_flatMap] at h
  rw [foldlM_appendFile hread]
  exact foldlM_appendRow_of_lt _ _
    (h.imp (fun h => h.trans_eq (Nat.zero_add _).symm) fun h => h.trans_eq (Nat.zero_add _).symm)

/-- The first call returns what the loop gathers. -/
theorem nextBatch_of_le (hread : ∀ f ∈ files, host.read f = .ok (content f))
    (hdoc : docBytes content files ≤ maxOffset) (hname : nameBytes content files ≤ maxOffset) :
    ∃ batch, nextBatch host ⟨schema, files, false⟩ = (.ok (some batch), ⟨schema, files, true⟩) ∧
      rowsOf batch = files.flatMap (fileRows content) := by
  obtain ⟨b, hrun, hidx, hdocs, hfiles⟩ := foldlM_appendFile_of_le hread hdoc hname
  have htyped : ([.int64 b.idx, .binary b.doc.values, .utf8 b.file.values] :
      List (Column T)).map Column.dataType = schema.map Field.dataType := rfl
  have haligned : ∀ c ∈ ([.int64 b.idx, .binary b.doc.values, .utf8 b.file.values] :
      List (Column T)), c.length = b.idx.length := by
    simp [Column.length, hidx, hdocs, hfiles]
  refine ⟨⟨schema, _, _, htyped, haligned⟩, ?_, ?_⟩
  · simp only [nextBatch, hrun]
    change ((do
      let batch ← fallible ((RecordBatch.tryNew schema _).mapError .arrowError)
      pure (some batch) : Outcome RpcError _), _) = _
    rw [RecordBatch.tryNew_of_aligned htyped haligned rfl]
    rfl
  · simp only [rowsOf, hidx, hdocs, hfiles]
    exact zip_columns _

theorem nextBatch_of_lt (hread : ∀ f ∈ files, host.read f = .ok (content f))
    (h : maxOffset < docBytes content files ∨ maxOffset < nameBytes content files) :
    nextBatch host ⟨schema, files, false⟩ = (.error .panic, ⟨schema, files, true⟩) := by
  simp only [nextBatch, foldlM_appendFile_of_lt hread h]
  rfl

theorem oneShot_nextBatch (host : Host T Path) :
    OneShot (nextBatch host) fun p => p.done = true := by
  constructor
  · intro p
    by_cases h : p.done = true
    · simp only [nextBatch, h, if_true]
    · simp only [nextBatch, if_neg h]
  · intro p h
    simp only [nextBatch, h, if_true]

/-- A fresh producer delivers its rows exactly when both byte columns have room for them. -/
theorem delivers_iff (hread : ∀ f ∈ files, host.read f = .ok (content f)) :
    Delivers (callAt (nextBatch host) ⟨schema, files, false⟩) (files.flatMap (fileRows content)) ↔
      docBytes content files ≤ maxOffset ∧ nameBytes content files ≤ maxOffset := by
  constructor
  · intro h
    obtain ⟨batches, hreturns, -⟩ := h
    by_contra hc
    have hpanic := nextBatch_of_lt hread (by omega)
    obtain ⟨r, hr⟩ := hreturns.exists_ok 0
    rw [callAt, hpanic] at hr
    cases hr
  · intro h
    obtain ⟨batch, hnext, hrows⟩ := nextBatch_of_le hread h.1 h.2
    refine ⟨[batch], ?_, ?_⟩
    · rw [(oneShot_nextBatch host).returns_singleton_iff, hnext]
    · rw [List.flatMap_singleton, hrows]

theorem stringLe_trans (a b c : String) (hab : stringLe a b = true) (hbc : stringLe b c = true) :
    stringLe a c = true := by
  simp only [stringLe, decide_eq_true_eq] at hab hbc ⊢
  exact List.le_trans hab hbc

theorem stringLe_total (a b : String) : (stringLe a b || stringLe b a) = true := by
  simp only [stringLe, Bool.or_eq_true, decide_eq_true_eq]
  exact List.le_total _ _

theorem docBytes_perm {files files' : List String} (h : files.Perm files') :
    docBytes content files = docBytes content files' :=
  (h.map _).sum_nat

theorem nameBytes_perm {files files' : List String} (h : files.Perm files') :
    nameBytes content files = nameBytes content files' :=
  (h.map _).sum_nat

/-- The producer of a glob holds the matched files in the order of their names. -/
theorem producer_eq {pattern : String} {paths : List (Option Path)}
    (hglob : host.glob pattern = .ok paths) : ∃ files, files.Perm (matchedFiles host paths) ∧
      files.Pairwise (fun a b => utf8 a ≤ utf8 b) ∧
      producer host schema (some pattern) = .ok ⟨schema, files, false⟩ := by
  refine ⟨(matchedFiles host paths).mergeSort stringLe, List.mergeSort_perm _ _, ?_, ?_⟩
  · have hsorted := List.pairwise_mergeSort stringLe_trans stringLe_total (matchedFiles host paths)
    simpa only [stringLe, decide_eq_true_eq] using hsorted
  · simp only [producer, expandGlob, hglob]
    rfl

/-- When every document is delivered: the calls deliver the rows of the sorted files, without a
panic, exactly when all documents together and all repeated names together fit 32-bit offsets. -/
theorem mongodump_read_delivers_iff (host : Host T Path) (pattern : String)
    (paths : List (Option Path)) (content : String → Bytes T)
    (hglob : host.glob pattern = .ok paths)
    (hread : ∀ f ∈ matchedFiles host paths, host.read f = .ok (content f)) :
    ∃ (files : List String) (p : DumpProducer), files.Perm (matchedFiles host paths) ∧
      files.Pairwise (fun a b => utf8 a ≤ utf8 b) ∧
      producer host schema (some pattern) = .ok p ∧
      (Delivers (callAt (nextBatch host) p) (files.flatMap (fileRows content)) ↔
        docBytes content (matchedFiles host paths) ≤ 2 ^ 31 - 1 ∧
          nameBytes content (matchedFiles host paths) ≤ 2 ^ 31 - 1) := by
  obtain ⟨files, hperm, hsorted, hproducer⟩ := producer_eq hglob
  refine ⟨files, _, hperm, hsorted, hproducer, ?_⟩
  rw [← docBytes_perm hperm, ← nameBytes_perm hperm]
  exact delivers_iff fun f hf => hread f (hperm.mem_iff.mp hf)

/-- A document with the integer 5 under `a`. -/
def fiveDocument : Bytes .bits64 :=
  ⟨[0x0C, 0x00, 0x00, 0x00, 0x10, 0x61, 0x00, 0x05, 0x00, 0x00, 0x00, 0x00], by decide⟩

/-- Two documents in `a.bson`, and three in any other file. -/
def dumpContent (file : String) : Bytes .bits64 :=
  if file = "a.bson" then ⟨emptyDocument.data ++ fiveDocument.data, by decide⟩
  else ⟨fiveDocument.data ++ emptyDocument.data ++ fiveDocument.data, by decide⟩

/-- A system with two files, and an entry that cannot be listed. -/
def twoFiles : Host .bits64 String where
  glob _ := .ok [some "b.bson", none, some "a.bson"]
  isFile _ := true
  toStringLossy p := p
  read file := .ok (dumpContent file)

theorem mongodump_read_delivers_twoFiles :
    ∃ (files : List String) (p : DumpProducer), files.Perm ["b.bson", "a.bson"] ∧
      files.Pairwise (fun a b => utf8 a ≤ utf8 b) ∧
      producer twoFiles schema (some "*.bson") = .ok p ∧
      Delivers (callAt (nextBatch twoFiles) p) (files.flatMap (fileRows dumpContent)) := by
  obtain ⟨files, p, hperm, hsorted, hp, hdelivers⟩ := mongodump_read_delivers_iff twoFiles "*.bson"
    [some "b.bson", none, some "a.bson"] dumpContent rfl fun _ _ => rfl
  exact ⟨files, p, hperm, hsorted, hp, hdelivers.mpr ⟨by decide +kernel, by decide +kernel⟩⟩

theorem exists_batch_twoFiles : ∃ batch,
    callAt (nextBatch twoFiles) ⟨schema, ["a.bson", "b.bson"], false⟩ 0 = .ok (some batch) := by
  have hread : ∀ f ∈ ["a.bson", "b.bson"], twoFiles.read f = .ok (dumpContent f) := fun _ _ => rfl
  obtain ⟨batch, hbatch, -⟩ := nextBatch_of_le hread (by decide +kernel) (by decide +kernel)
  exact ⟨batch, congrArg Prod.fst hbatch⟩

/-- A system with the one file `a.bson`. -/
def oneFile (s : Bytes T) : Host T String where
  glob _ := .ok [some "a.bson"]
  isFile _ := true
  toStringLossy p := p
  read _ := .ok s

/-- A dump of `n` empty documents. -/
def emptyDocuments (n : ℕ) (h : n * 5 ≤ Target.bits64.isizeMax) : Bytes .bits64 :=
  ⟨(contents (List.replicate n emptyDocument)).flatten, by
    have hlen : emptyDocument.data.length = 5 := rfl
    simpa only [contents, List.map_replicate, List.length_flatten, List.sum_replicate_nat,
      hlen] using h⟩

theorem documents_emptyDocuments (n : ℕ) (h : n * 5 ≤ Target.bits64.isizeMax) :
    documents (emptyDocuments n h) = List.replicate n emptyDocument := by
  have hall : ∀ d ∈ List.replicate n emptyDocument, AcceptedAlone d := by
    intro d hd
    rw [List.eq_of_mem_replicate hd]
    exact acceptedAlone_emptyDocument
  have hcut : PrefixCodes.Factors (BsonGrammar.Doc (ValidatorGrammar.rules false) 0)
      (emptyDocuments n h).data (contents (List.replicate n emptyDocument)) [] := by
    refine ⟨(List.append_nil _).symm, (words_contents_iff _).mpr hall, ?_⟩
    exact (prefixCode_doc _ _).factors_nil.stuck
  simp only [documents, split_eq_of_factors hcut, map_doc_numbered]

theorem docBytes_emptyDocuments (n : ℕ) (h : n * 5 ≤ Target.bits64.isizeMax) (file : String) :
    docBytes (fun _ => emptyDocuments n h) [file] = n * 5 := by
  have hlen : emptyDocument.len = 5 := rfl
  simp only [docBytes, documents_emptyDocuments, List.map_cons, List.map_nil, List.map_replicate,
    List.sum_cons, List.sum_nil, List.sum_replicate_nat, hlen, Nat.add_zero]

/-- A large enough dump makes the first call panic, and no row is delivered. -/
theorem panics_on_emptyDocuments (n : ℕ) (h : n * 5 ≤ Target.bits64.isizeMax)
    (hlarge : maxOffset < n * 5) :
    ∃ p, producer (oneFile (emptyDocuments n h)) schema (some "*.bson") = .ok p ∧
      callAt (nextBatch (oneFile (emptyDocuments n h))) p 0 = .error .panic ∧
      ¬ Delivers (callAt (nextBatch (oneFile (emptyDocuments n h))) p)
        (["a.bson"].flatMap (fileRows fun _ => emptyDocuments n h)) := by
  have hdoc : maxOffset < docBytes (fun _ => emptyDocuments n h) ["a.bson"] := by
    rwa [docBytes_emptyDocuments]
  have hread : ∀ f ∈ ["a.bson"],
      (oneFile (emptyDocuments n h)).read f = .ok (emptyDocuments n h) := fun _ _ => rfl
  refine ⟨⟨schema, ["a.bson"], false⟩, ?_, ?_, ?_⟩
  · simp [producer, expandGlob, oneFile, matchedFiles, Except.map]
  · rw [callAt, nextBatch_of_lt hread (.inl hdoc)]
  · rw [delivers_iff hread]
    omega

/-- 429496730 empty documents are two bytes more than a 32-bit offset can count. -/
theorem mongodump_read_panics :
    ∃ (h : 429496730 * 5 ≤ Target.bits64.isizeMax) (p : DumpProducer),
      producer (oneFile (emptyDocuments 429496730 h)) schema (some "*.bson") = .ok p ∧
      callAt (nextBatch (oneFile (emptyDocuments 429496730 h))) p 0 = .error .panic ∧
      ¬ Delivers (callAt (nextBatch (oneFile (emptyDocuments 429496730 h))) p)
        (["a.bson"].flatMap (fileRows fun _ => emptyDocuments 429496730 h)) :=
  ⟨by decide, panics_on_emptyDocuments _ _ (by decide)⟩

end VgiBson.DumpReader
