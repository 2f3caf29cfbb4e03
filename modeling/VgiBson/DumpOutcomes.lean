import Mathlib.Data.List.TakeWhile
import VgiBson.DumpReader

/-! # Every outcome of reading a dump

The reader goes through the sorted files and stops at the first one that it cannot read. What it has
gathered by then is lost, and the order in which the file system lists the files does not matter. -/

namespace VgiBson.DumpOutcomes

open MachineBytes CursorWalks SequenceSplitter ArrowColumns ProducerRuns DumpReader

variable {T : Target} {Path : Type} {host : Host T Path}

/-- The content of a file, if it can be read. -/
def contentOf (host : Host T Path) (file : String) : Bytes T :=
  match host.read file with
  | .ok b => b
  | .error _ => .empty

def Readable (host : Host T Path) (file : String) : Bool :=
  match host.read file with
  | .ok _ => true
  | .error _ => false

/-- The files that are read before the first one that cannot be read. -/
def readFirst (host : Host T Path) (files : List String) : List String :=
  files.takeWhile (Readable host)

theorem read_of_readable {file : String} (h : Readable host file = true) :
    host.read file = .ok (contentOf host file) := by
  rw [Readable] at h
  rw [contentOf]
  cases hread : host.read file with
  | ok b => rfl
  | error e =>
    rw [hread] at h
    cases h

theorem read_of_mem_readFirst {files : List String} {f : String} (h : f ∈ readFirst host files) :
    host.read f = .ok (contentOf host f) :=
  read_of_readable (List.mem_takeWhile_imp h)

/-- The documents and names of these files fit 32-bit offsets. -/
def Fits (content : String → Bytes T) (files : List String) : Prop :=
  docBytes content files ≤ maxOffset ∧ nameBytes content files ≤ maxOffset

theorem lt_of_not_fits {content : String → Bytes T} {files : List String}
    (h : ¬ Fits content files) :
    maxOffset < docBytes content files ∨ maxOffset < nameBytes content files := by
  rwa [Fits, not_and_or, Nat.not_le, Nat.not_le] at h

/-- A failure in the loop over the files is the result of the call. -/
theorem callAt_zero_of_error {files : List String} {e : Stop RpcError}
    (h : files.foldlM (appendFile host) .new = .error e) :
    callAt (nextBatch host) ⟨schema, files, false⟩ 0 = .error e := by
  rw [callAt]
  simp only [nextBatch, h]
  rfl

theorem foldlM_of_unreadable {pre post : List String} {f : String} {e : String}
    {b : Builders T} (hpre : pre.foldlM (appendFile host) .new = .ok b)
    (hf : host.read f = .error e) : (pre ++ f :: post).foldlM (appendFile host) .new =
      .error (.error (.runtimeError s!"read {f}: {e}")) := by
  have hstep : appendFile host b f = .error (.error (.runtimeError s!"read {f}: {e}")) := by
    rw [appendFile, hf]
    rfl
  rw [List.foldlM_append, hpre]
  show (f :: post).foldlM (appendFile host) b = _
  rw [List.foldlM_cons, hstep]
  rfl

/-- Every run of the dump reader, whatever the file system holds: it panics when the files
before the first unreadable one are too large, fails with the error of that file and no rows, or
returns the rows of all files. No later call returns anything. -/
theorem mongodump_read_outcomes (host : Host T Path) (files : List String) :
    (¬ Fits (contentOf host) (readFirst host files) →
      callAt (nextBatch host) ⟨schema, files, false⟩ 0 = .error .panic) ∧
    (Fits (contentOf host) (readFirst host files) →
      (∀ f post e, files = readFirst host files ++ f :: post → host.read f = .error e →
        callAt (nextBatch host) ⟨schema, files, false⟩ 0 =
          .error (.error (.runtimeError s!"read {f}: {e}"))) ∧
      (readFirst host files = files → ∃ batch,
        callAt (nextBatch host) ⟨schema, files, false⟩ 0 = .ok (some batch) ∧
        rowsOf batch = files.flatMap (fileRows (contentOf host)))) ∧
    (readFirst host files ≠ files → ∃ f post e, files = readFirst host files ++ f :: post ∧
      host.read f = .error e) ∧
    ∀ n, callAt (nextBatch host) ⟨schema, files, false⟩ (n + 1) = .ok none := by
  have hread : ∀ f ∈ readFirst host files, host.read f = .ok (contentOf host f) :=
    fun f hf => read_of_mem_readFirst hf
  have happend : readFirst host files ++ files.dropWhile (Readable host) = files :=
    List.takeWhile_append_dropWhile
  refine ⟨?_, ?_, ?_, (oneShot_nextBatch host).callAt_succ _⟩
  · intro h
    apply callAt_zero_of_error
    rw [← happend, List.foldlM_append, foldlM_appendFile_of_lt hread (lt_of_not_fits h)]
    rfl
  · intro h
    constructor
    · intro f post e hfiles hf
      obtain ⟨b, hb, -⟩ := foldlM_appendFile_of_le hread h.1 h.2
      apply callAt_zero_of_error
      rw [hfiles]
      exact foldlM_of_unreadable hb hf
    · intro hall
      rw [hall] at hread h
      obtain ⟨batch, hnext, hrows⟩ := nextBatch_of_le hread h.1 h.2
      exact ⟨batch, by rw [callAt, hnext], hrows⟩
  · intro hne
    cases hrest : files.dropWhile (Readable host) with
    | nil =>
      rw [hrest, List.append_nil] at happend
      exact absurd happend hne
    | cons f post =>
      rw [hrest] at happend
      have hf : Readable host f = false := by
        have hhead := List.head_dropWhile_not (Readable host) (l := files)
          (by rw [hrest]; exact List.cons_ne_nil f post)
        simpa [hrest] using hhead
      rw [Readable] at hf
      cases hread' : host.read f with
      | ok b =>
        rw [hread'] at hf
        cases hf
      | error e => exact ⟨f, post, e, happend.symm, hread'⟩

theorem stringLe_antisymm {a b : String} (hab : stringLe a b = true) (hba : stringLe b a = true) :
    a = b := by
  simp only [stringLe, decide_eq_true_eq] at hab hba
  exact utf8_injective (List.le_antisymm hab hba)

/-- A sorted list does not depend on the order it was given in. -/
theorem mergeSort_congr {l l' : List String} (h : l.Perm l') :
    l.mergeSort stringLe = l'.mergeSort stringLe :=
  @List.Perm.eq_of_pairwise _ (fun a b => stringLe a b = true) _ _
    (fun _ _ _ _ => stringLe_antisymm)
    (List.pairwise_mergeSort stringLe_trans stringLe_total l)
    (List.pairwise_mergeSort stringLe_trans stringLe_total l')
    ((List.mergeSort_perm l _).trans (h.trans (List.mergeSort_perm l' _).symm))

/-- The order in which a glob lists its matches does not matter, nor do entries that cannot be
listed: two such systems give the same producer and the same runs. -/
theorem mongodump_read_order (host : Host T Path)
    (glob : String → Except String (List (Option Path))) (pattern : String)
    (paths paths' : List (Option Path)) (h : host.glob pattern = .ok paths)
    (h' : glob pattern = .ok paths') (hperm : (paths.filterMap id).Perm (paths'.filterMap id)) :
    ∃ p, producer host schema (some pattern) = .ok p ∧
      producer { host with glob := glob } schema (some pattern) = .ok p ∧
      ∀ n, callAt (nextBatch { host with glob := glob }) p n = callAt (nextBatch host) p n := by
  have hfiles : (matchedFiles host paths).Perm (matchedFiles { host with glob := glob } paths') :=
    (hperm.filter _).map _
  refine ⟨⟨schema, (matchedFiles host paths).mergeSort stringLe, false⟩, ?_, ?_, ?_⟩
  · simp only [producer, expandGlob, h]
    rfl
  · simp only [producer, expandGlob, h']
    rw [mergeSort_congr hfiles]
    rfl
  · intro n
    rfl

/-- The same two files, listed in the other order and with an entry that cannot be listed. -/
theorem mongodump_read_order_twoFiles :
    ∃ p, producer { oneFile emptyDocument with
        glob := fun _ => .ok [some "a.bson", some "b.bson"] } schema (some "*.bson") = .ok p ∧
      producer { oneFile emptyDocument with
        glob := fun _ => .ok [some "b.bson", none, some "a.bson"] } schema (some "*.bson") =
          .ok p ∧
      ∀ n, callAt (nextBatch { oneFile emptyDocument with
          glob := fun _ => .ok [some "b.bson", none, some "a.bson"] }) p n =
        callAt (nextBatch { oneFile emptyDocument with
          glob := fun _ => .ok [some "a.bson", some "b.bson"] }) p n :=
  mongodump_read_order
    { oneFile emptyDocument with glob := fun _ => .ok [some "a.bson", some "b.bson"] }
    (fun _ => .ok [some "b.bson", none, some "a.bson"]) "*.bson" [some "a.bson", some "b.bson"]
    [some "b.bson", none, some "a.bson"] rfl rfl (.swap "b.bson" "a.bson" [])

end VgiBson.DumpOutcomes
