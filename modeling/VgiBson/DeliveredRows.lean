import VgiBson.DumpOutcomes
import VgiBson.SequenceTable
import VgiBson.TruncatedStreams

/-! # What is wrong with a delivered row

The table functions split with the walk that ignores duplicate keys, and the scalar functions judge
with the one that does not. That is the only way a delivered document can be malformed. -/

namespace VgiBson.DeliveredRows

open MachineBytes CursorWalks CursorAgreement StructuralValidator ValidatorGrammar
  ValidatorStrictness BsonGrammar PrefixCodes BsonValues ArrowColumns DocumentDecoding
  CrateAssumptions SequenceSplitter TruncatedStreams SequenceTable
open ProducerRuns (callAt)
open DumpReader (Host Row)
open DumpOutcomes (contentOf)

variable {T : Target} {Path : Type}

/-- What holds of every document that is split off: it is the only document of its bytes, a reader
gets past the validator, and the verdict on it depends on its keys alone. -/
structure Delivered (b : Bytes T) : Prop where
  alone : split b = .ok [⟨0, b⟩]
  reads : ∀ (crates : Crates) doc,
    decodeDocument crates b = .ok doc ↔ crates.fromReader b.data = .ok doc
  verdict : wellFormed b = .ok ⟨true, none, none⟩ ∨
    wellFormed b =
      .ok ⟨false, some DecodeError.duplicateKey.message, some DecodeError.duplicateKey.kind⟩
  keys : isValid b = true ↔ Doc (rules true) 0 b.data

/-- A document that is accepted but for its keys is valid or has a duplicate key. -/
theorem validate_of_acceptedAlone {b : Bytes T} (h : AcceptedAlone b) :
    validate b = .ok () ∨ validate b = .error (.error .duplicateKey) := by
  rcases agrees_validateDoc b 0 0 with hrun | hrun
  · left
    rw [validate_ok_iff_yields]
    exact ⟨(congrArg Report.out hrun).trans h.1, (congrArg Report.pos hrun).trans h.2⟩
  · exact .inr (validate_of_error hrun)

theorem delivered_of_acceptedAlone {b : Bytes T} (h : AcceptedAlone b) : Delivered b := by
  have hpre : precheck b = .ok () := h.1
  refine ⟨split_of_acceptedAlone h, ?_, ?_, ?_⟩
  · intro crates doc
    rw [decodeDocument_eq_ok_iff]
    exact ⟨fun hd => hd.2, fun hd => ⟨hpre, hd⟩⟩
  · rcases validate_of_acceptedAlone h with hv | hv
    · left
      rw [wellFormed, hv]
    · right
      rw [wellFormed, hv]
  · rw [← yields_validateDoc_full, ← validate_ok_iff_yields, isValid]
    cases validate b with
    | ok u => exact iff_of_true rfl rfl
    | error e => exact iff_of_false (by simp) (by simp)

theorem delivered_of_split {s : Bytes T} {docs : List (SeqDoc T)} (h : split s = .ok docs) :
    ∀ d ∈ docs, Delivered d.doc := by
  obtain ⟨ds, rest, hds, hs⟩ := split_factors s
  rw [h] at hs
  obtain rfl := Except.ok.inj hs
  intro d hd
  have hmem : d.doc ∈ (numbered 0 ds).map SeqDoc.doc := List.mem_map_of_mem hd
  rw [map_doc_numbered] at hmem
  exact delivered_of_acceptedAlone ((words_contents_iff ds).mp hds.words d.doc hmem)

theorem delivered_of_sequence {stream : Option (Bytes T)} {p : SeqProducer T} {n : ℕ}
    {batch : RecordBatch T} (hp : producer schema stream = .ok p)
    (h : callAt nextBatch p n = .ok (some batch)) :
    ∀ d ∈ rowsOf batch, Delivered d.doc := by
  obtain ⟨docs, rfl, hdocs⟩ : ∃ docs, p = ⟨schema, some docs⟩ ∧ ∀ d ∈ docs, Delivered d.doc := by
    cases stream with
    | none =>
      cases hp
      exact ⟨[], rfl, by simp⟩
    | some s =>
      obtain ⟨ds, rest, -, hs⟩ := split_factors s
      rw [producer_of_split hs] at hp
      cases hp
      exact ⟨_, rfl, delivered_of_split hs⟩
  obtain ⟨hfits, hover⟩ := runs_of_docs docs
  obtain rfl := oneShot_nextBatch.eq_zero_of_batch h
  rcases Nat.lt_or_ge maxOffset (seqBytes docs) with hlt | hle
  · rw [(hover hlt).1] at h
    cases h
  · obtain ⟨batch', hreturns, hrows⟩ := hfits hle
    have hfirst := hreturns.batch 0 Nat.one_pos
    rw [h] at hfirst
    obtain rfl := Option.some.inj (Except.ok.inj hfirst)
    exact hrows ▸ hdocs

/-- The loop over the files gets to its end only past readable files. -/
theorem readable_of_foldlM {host : Host T Path} {files : List String} {b b' : DumpReader.Builders T}
    (h : files.foldlM (DumpReader.appendFile host) b = .ok b') :
    ∀ f ∈ files, host.read f = .ok (contentOf host f) := by
  induction files generalizing b with
  | nil => exact fun f hf => absurd hf List.not_mem_nil
  | cons f files ih =>
    rw [List.foldlM_cons] at h
    obtain ⟨b₁, hfirst, hrest⟩ := bind_eq_ok_iff.mp h
    simp only [List.mem_cons, forall_eq_or_imp]
    refine ⟨?_, ih hrest⟩
    rw [DumpReader.appendFile] at hfirst
    rw [contentOf]
    cases hread : host.read f with
    | ok bytes => rfl
    | error e =>
      rw [hread] at hfirst
      cases hfirst

/-- A dump reader that returned a batch could read all its files. -/
theorem readable_of_returned {host : Host T Path} {files : List String} {batch : RecordBatch T}
    (h : callAt (DumpReader.nextBatch host) ⟨DumpReader.schema, files, false⟩ 0 =
      .ok (some batch)) :
    ∀ f ∈ files, host.read f = .ok (contentOf host f) := by
  cases hloop : files.foldlM (DumpReader.appendFile host) .new with
  | ok b => exact readable_of_foldlM hloop
  | error e =>
    rw [DumpOutcomes.callAt_zero_of_error hloop] at h
    cases h

theorem delivered_of_dump {host : Host T Path} {files : List String} {n : ℕ}
    {batch : RecordBatch T}
    (h : callAt (DumpReader.nextBatch host) ⟨DumpReader.schema, files, false⟩ n =
      .ok (some batch)) :
    ∀ r ∈ DumpReader.rowsOf batch, Delivered r.doc := by
  obtain rfl := (DumpReader.oneShot_nextBatch host).eq_zero_of_batch h
  obtain ⟨-, hrows⟩ := docBytes_le_of_returned (readable_of_returned h) h
  rw [hrows]
  intro r hr
  obtain ⟨f, -, hrf⟩ := List.mem_flatMap.mp hr
  obtain ⟨ds, rest, -, hs⟩ := split_factors (contentOf host f)
  rw [fileRows_eq_labelled hs, labelled] at hrf
  obtain ⟨d, hd, rfl⟩ := List.mem_map.mp hrf
  exact delivered_of_split hs d hd

/-- A delivered row is malformed by its keys alone: whatever `bson_seq` and `mongodump_read`
return at any call, every document of it is split again into itself, is decoded where the library
reads it, and is well formed or reported for a duplicate key and nothing else. -/
theorem delivered_rows_diagnosed (T : Target) (Path : Type) :
    (∀ (stream : Option (Bytes T)) p n batch, producer schema stream = .ok p →
      callAt nextBatch p n = .ok (some batch) → ∀ d ∈ rowsOf batch, Delivered d.doc) ∧
    ∀ (host : Host T Path) files n batch,
      callAt (DumpReader.nextBatch host) ⟨DumpReader.schema, files, false⟩ n =
        .ok (some batch) →
      ∀ r ∈ DumpReader.rowsOf batch, Delivered r.doc :=
  ⟨fun _ _ _ _ hp h => delivered_of_sequence hp h, fun _ _ _ _ h => delivered_of_dump h⟩

/-- A document that has the key `a` twice. -/
def repeatedKeyDocument : Bytes .bits64 :=
  ⟨[0x0B, 0x00, 0x00, 0x00, 0x0A, 0x61, 0x00, 0x0A, 0x61, 0x00, 0x00], by decide⟩

def repeatedKeyStream : Bytes .bits64 :=
  ⟨repeatedKeyDocument.data ++ emptyDocument.data, by decide⟩

theorem delivered_rows_diagnosed_repeatedKey :
    (∃ p batch, producer schema (some repeatedKeyStream) = .ok p ∧
      callAt nextBatch p 0 = .ok (some batch) ∧
      rowsOf batch = [⟨0, repeatedKeyDocument⟩, ⟨1, emptyDocument⟩] ∧
      Delivered repeatedKeyDocument ∧ Delivered emptyDocument) ∧
    ∃ batch, callAt (DumpReader.nextBatch DumpReader.twoFiles)
        ⟨DumpReader.schema, ["a.bson", "b.bson"], false⟩ 0 = .ok (some batch) ∧
      ∀ r ∈ DumpReader.rowsOf batch, Delivered r.doc := by
  obtain ⟨hsequence, hdump⟩ := delivered_rows_diagnosed .bits64 String
  constructor
  · have hsplit : split repeatedKeyStream = .ok [⟨0, repeatedKeyDocument⟩, ⟨1, emptyDocument⟩] := by
      decide +kernel
    have hp := producer_of_split hsplit
    obtain ⟨batch, hbatch, hrows⟩ := nextBatch_of_le
      (by decide : seqBytes [⟨0, repeatedKeyDocument⟩, ⟨1, emptyDocument⟩] ≤ maxOffset)
    have hall := hsequence (some repeatedKeyStream) _ 0 batch hp hbatch
    rw [hrows] at hall
    exact ⟨_, batch, hp, hbatch, hrows, hall ⟨0, repeatedKeyDocument⟩ (by simp),
      hall ⟨1, emptyDocument⟩ (by simp)⟩
  · obtain ⟨batch, hbatch⟩ := DumpReader.exists_batch_twoFiles
    exact ⟨batch, hbatch, hdump DumpReader.twoFiles ["a.bson", "b.bson"] 0 batch hbatch⟩

end VgiBson.DeliveredRows
