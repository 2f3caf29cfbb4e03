import VgiBson.PrefixCodes
import VgiBson.ValidatorBounds

/-! # Splitting a stream of documents

The loop of `split` cuts a stream into documents of the lenient grammar. Documents are a prefix
code, so this cut is the only one, and every property of the splitter is one of the cut. -/

namespace VgiBson.SequenceSplitter

open MachineBytes CursorWalks CursorLanguages CursorBounds StructuralValidator ValidatorGrammar
  ValidatorBounds BsonGrammar PrefixCodes

variable {T : Target}

/-- One document carved out of a concatenated stream. -/
structure SeqDoc (T : Target) where
  idx : ℤ
  doc : Bytes T
  deriving DecidableEq, Repr

/-- `a + b` on `i64`. -/
def addI64 {ε : Type} (a b : ℤ) : Walk ε ℤ :=
  orPanic (if -(2 ^ 63) ≤ a + b ∧ a + b < 2 ^ 63 then some (a + b) else none)

/-- The loop of `split`, with the index of the next document and the documents found so far. -/
def splitLoop (stream : Bytes T) : (fuel : ℕ) → (idx : ℤ) → (out : List (SeqDoc T)) →
    Walk Empty (List (SeqDoc T))
  | 0, _, _ => stop .fuel
  | fuel + 1, idx, out => do
    let start ← position
    if start < stream.len then
      let result ← attempt (validateOne stream)
      match result with
      | .ok _ =>
        let pos ← position
        if pos ≤ start then pure out else
        let doc ← range stream start pos
        let next ← addI64 idx 1
        splitLoop stream fuel next (out ++ [⟨idx, doc⟩])
      | .error _ => pure out
    else pure out

/-- Split `stream` into its constituent documents. -/
def split (stream : Bytes T) : Outcome Empty (List (SeqDoc T)) :=
  ((splitLoop stream (stream.len + 1) 0 []).run 0).out

/-- The whole of `d`, taken alone, is accepted by `validate_one`. -/
def AcceptedAlone (d : Bytes T) : Prop := Yields (validateOne d) 0 () d.len

/-- Every byte string of a sequence, in order. -/
def contents (ds : List (Bytes T)) : List (List UInt8) := ds.map Bytes.data

@[simp] theorem contents_append (ds es : List (Bytes T)) :
    contents (ds ++ es) = contents ds ++ contents es :=
  List.map_append

/-- The documents with the indices that follow `i`. -/
def numbered (i : ℕ) : List (Bytes T) → List (SeqDoc T)
  | [] => []
  | d :: ds => ⟨i, d⟩ :: numbered (i + 1) ds

/-- The same documents, `n` places later. -/
def SeqDoc.shift (n : ℕ) (d : SeqDoc T) : SeqDoc T := { d with idx := d.idx + n }

@[simp] theorem length_numbered (i : ℕ) (ds : List (Bytes T)) :
    (numbered i ds).length = ds.length := by
  induction ds generalizing i with
  | nil => rfl
  | cons d ds ih => simp [numbered, ih]

@[simp] theorem map_doc_numbered (i : ℕ) (ds : List (Bytes T)) :
    (numbered i ds).map SeqDoc.doc = ds := by
  induction ds generalizing i with
  | nil => rfl
  | cons d ds ih => simp [numbered, ih]

theorem map_idx_numbered (i : ℕ) (ds : List (Bytes T)) :
    (numbered i ds).map SeqDoc.idx = (List.range' i ds.length).map Int.ofNat := by
  induction ds generalizing i with
  | nil => rfl
  | cons d ds ih => simp [numbered, ih, List.range'_succ]

theorem numbered_append (i : ℕ) (ds es : List (Bytes T)) :
    numbered i (ds ++ es) = numbered i ds ++ numbered (i + ds.length) es := by
  induction ds generalizing i with
  | nil => rfl
  | cons d ds ih =>
    rw [List.cons_append, numbered, numbered, ih, List.cons_append, List.length_cons,
      Nat.add_right_comm, Nat.add_assoc]

theorem map_shift_numbered (i n : ℕ) (ds : List (Bytes T)) :
    (numbered i ds).map (SeqDoc.shift n) = numbered (i + n) ds := by
  induction ds generalizing i with
  | nil => rfl
  | cons d ds ih =>
    rw [numbered, numbered, List.map_cons, ih, Nat.add_right_comm i 1 n]
    simp [SeqDoc.shift]

theorem prefixCode_doc (R : Rules) (k : ℕ) : PrefixCode (Doc R k) := by
  constructor
  · intro h
    have h5 := h.prefix_length.1
    simp at h5
  · intro v w r t hv hw he
    exact (hv.append_inj hw he).1

theorem acceptedAlone_iff (d : Bytes T) : AcceptedAlone d ↔ Doc (rules false) 0 d.data :=
  yields_validateDoc_full d 0 false

/-- Where no document begins, `validate_one` returns an error. -/
theorem validateOne_rejects {s : Bytes T} {p : ℕ} (hp : p ≤ s.len)
    (h : ∀ w t, s.data.drop p = w ++ t → ¬ Doc (rules false) 0 w) :
    ∃ e, ((validateOne s).run p).out = .error (.error e) := by
  obtain ⟨hpanic, hfuel⟩ := (@bounded_validateDoc T s 0 false p).returned
  cases ho : ((validateOne s).run p).out with
  | ok u =>
    obtain ⟨w, hw, ⟨t, ht⟩, -⟩ := (reads_validateDoc 0 false p hp u _).mp ⟨ho, rfl⟩
    exact absurd hw (h w t ht.symm)
  | error e =>
    cases e with
    | error e => exact ⟨e, rfl⟩
    | panic => exact absurd ho hpanic
    | fuel => exact absurd ho hfuel

theorem addI64_natCast {ε : Type} {i : ℕ} (h : i < T.isizeMax) :
    (addI64 (i : ℤ) 1 : Walk ε ℤ) = pure ((i + 1 : ℕ) : ℤ) := by
  have hmax := T.isizeMax_le_i64
  have hr : -(2 ^ 63) ≤ (i : ℤ) + 1 ∧ (i : ℤ) + 1 < 2 ^ 63 := by omega
  rw [addI64, if_pos hr, orPanic_some, Nat.cast_add_one]

/-- From any position the loop appends the documents of the cut of what is left. -/
theorem splitLoop_factors (s : Bytes T) {fuel idx p : ℕ} (out : List (SeqDoc T)) (hp : p ≤ s.len)
    (hfuel : s.len < p + fuel) (hidx : idx ≤ p) :
    ∃ ds rest, Factors (Doc (rules false) 0) (s.data.drop p) (contents ds) rest ∧
      ((splitLoop s fuel idx out).run p).out = .ok (out ++ numbered idx ds) := by
  induction fuel generalizing idx p out with
  | zero => omega
  | succ fuel ih =>
    rw [splitLoop, run_position_bind]
    by_cases hlt : p < s.len
    · rw [if_pos hlt]
      cases ho : ((validateOne s).run p).out with
      | ok u =>
        obtain ⟨w, hw, hat, hpos⟩ := (reads_validateDoc 0 false p hp u _).mp ⟨ho, rfl⟩
        change ((validateOne s).run p).pos = p + w.length at hpos
        have h5 := hw.prefix_length.1
        have hle := hat.end_le hp
        have hfit := s.fits
        have hsub := sub_eq_of_at hat
        obtain ⟨ds, rest, hds, hrun⟩ := ih (out ++ [⟨(idx : ℤ), s.sub p (p + w.length)⟩]) hle
          (by omega) (by omega : idx + 1 ≤ p + w.length)
        obtain ⟨t, ht⟩ := hat
        rw [← List.drop_drop, ← ht, List.drop_left] at hds
        refine ⟨s.sub p (p + w.length) :: ds, rest, ?_, ?_⟩
        · rw [← ht, contents, List.map_cons, hsub]
          exact hds.cons hw
        · rw [attempt_bind_of_ok ho, hpos]
          dsimp only
          rw [run_position_bind, if_neg (by omega), range,
            getRange_of_le (Nat.le_add_right p w.length) hle, orPanic_some, pure_bind,
            addI64_natCast (by simp only [Bytes.len] at hlt; omega : idx < T.isizeMax), pure_bind,
            hrun, List.append_assoc]
          rfl
      | error e =>
        cases e with
        | error e =>
          refine ⟨[], _, Factors.stop ?_, ?_⟩
          · intro w t hwt hw
            obtain ⟨hok, -⟩ := (reads_validateDoc 0 false p hp () _).mpr ⟨w, hw, ⟨t, hwt.symm⟩, rfl⟩
            cases ho.symm.trans hok
          · rw [attempt_bind_of_error ho]
            simp [numbered]
        | panic => exact absurd ho (bounded_validateDoc 0 false p).returned.1
        | fuel => exact absurd ho (bounded_validateDoc 0 false p).returned.2
    · rw [if_neg hlt]
      have hnil : s.data.drop p = [] := by
        apply List.drop_eq_nil_of_le
        simpa [Bytes.len] using hlt
      refine ⟨[], [], ?_, ?_⟩
      · rw [hnil]
        exact (prefixCode_doc _ _).factors_nil
      · simp [numbered]

/-- `split` returns the numbered words of the cut of the stream. -/
theorem split_factors (s : Bytes T) : ∃ ds rest,
    Factors (Doc (rules false) 0) s.data (contents ds) rest ∧ split s = .ok (numbered 0 ds) :=
  splitLoop_factors s [] (Nat.zero_le _) (by omega) (Nat.zero_le _)

theorem contents_injective : Function.Injective (contents : List (Bytes T) → List (List UInt8)) :=
  List.map_injective_iff.mpr fun _ _ h => Bytes.ext h

theorem words_contents_iff (ds : List (Bytes T)) :
    (∀ w ∈ contents ds, Doc (rules false) 0 w) ↔ ∀ d ∈ ds, AcceptedAlone d := by
  simp only [contents, List.mem_map, forall_exists_index, and_imp, forall_apply_eq_imp_iff₂,
    acceptedAlone_iff]

/-- Any cut of the stream is the one `split` returns. -/
theorem split_eq_of_factors {s : Bytes T} {ds : List (Bytes T)} {rest : List UInt8}
    (h : Factors (Doc (rules false) 0) s.data (contents ds) rest) :
    split s = .ok (numbered 0 ds) := by
  obtain ⟨es, rest', hes, hsplit⟩ := split_factors s
  obtain ⟨heq, -⟩ := h.unique (prefixCode_doc _ _) hes
  rw [hsplit, contents_injective heq]

/-- Accepted documents in front of a stream are split off in front. -/
theorem split_append {ds : List (Bytes T)} {t s : Bytes T} (hds : ∀ d ∈ ds, AcceptedAlone d)
    (hs : s.data = (contents ds).flatten ++ t.data) : ∃ docs, split t = .ok docs ∧
      split s = .ok (numbered 0 ds ++ docs.map (SeqDoc.shift ds.length)) := by
  obtain ⟨es, rest, hes, ht⟩ := split_factors t
  refine ⟨numbered 0 es, ht, ?_⟩
  have hcut : Factors (Doc (rules false) 0) s.data (contents (ds ++ es)) rest := by
    refine ⟨?_, ?_, hes.stuck⟩
    · rw [hs, hes.whole, contents_append, List.flatten_append, List.append_assoc]
    · rw [words_contents_iff]
      intro d hd
      rcases List.mem_append.mp hd with hd | hd
      · exact hds d hd
      · exact (words_contents_iff es).mp hes.words d hd
  rw [split_eq_of_factors hcut, numbered_append, map_shift_numbered]

/-- Appending bytes only appends documents. -/
theorem split_prefix {s s' : Bytes T} (h : s.data <+: s'.data) :
    ∃ docs docs', split s = .ok docs ∧ split s' = .ok docs' ∧ docs <+: docs' := by
  obtain ⟨ds, rest, hds, hs⟩ := split_factors s
  obtain ⟨t, ht⟩ := h
  have hfit := s'.fits
  rw [← ht, hds.whole, List.append_assoc, List.length_append] at hfit
  have hwhole : s'.data = (contents ds).flatten ++
      (⟨rest ++ t, (Nat.le_add_left _ _).trans hfit⟩ : Bytes T).data := by
    rw [← ht, hds.whole, List.append_assoc]
  obtain ⟨docs, -, hs'⟩ := split_append ((words_contents_iff ds).mp hds.words) hwhole
  exact ⟨_, _, hs, hs', List.prefix_append _ _⟩

/-- `split` partitions the stream and inverts concatenation. -/
theorem split_partitions_and_inverts :
    (∀ (T : Target) (s : Bytes T), ∃ (docs : List (SeqDoc T)) (rest : Bytes T),
      split s = .ok docs ∧
      docs.map SeqDoc.idx = (List.range docs.length).map Int.ofNat ∧
      s.data = (contents (docs.map SeqDoc.doc)).flatten ++ rest.data ∧
      (∀ d ∈ docs, AcceptedAlone d.doc) ∧
      (rest.data = [] ∨
        (∃ e, ((validateOne s).run (s.len - rest.len)).out = .error (.error e)) ∧
          ∃ e, ((validateOne rest).run 0).out = .error (.error e))) ∧
    (∀ (T : Target) (ds : List (Bytes T)) (t s : Bytes T), (∀ d ∈ ds, AcceptedAlone d) →
      s.data = (contents ds).flatten ++ t.data → ∃ docs, split t = .ok docs ∧
        split s = .ok (numbered 0 ds ++ docs.map (SeqDoc.shift ds.length))) ∧
    (∀ (T : Target) (ds : List (Bytes T)) (s : Bytes T), (∀ d ∈ ds, AcceptedAlone d) →
      s.data = (contents ds).flatten → split s = .ok (numbered 0 ds)) ∧
    (∀ (T : Target) (s s' : Bytes T), s.data <+: s'.data →
      ∃ docs docs', split s = .ok docs ∧ split s' = .ok docs' ∧ docs <+: docs') := by
  refine ⟨?_, fun T ds t s => split_append, ?_, fun T s s' => split_prefix⟩
  · intro T s
    obtain ⟨ds, rest, hds, hs⟩ := split_factors s
    have hfit := s.fits
    have hlen := congrArg List.length hds.whole
    rw [List.length_append] at hlen
    refine ⟨numbered 0 ds, ⟨rest, by omega⟩, hs, ?_, ?_, ?_, .inr ⟨?_, ?_⟩⟩
    · rw [map_idx_numbered, length_numbered, List.range_eq_range']
    · rw [map_doc_numbered]
      exact hds.whole
    · intro d hd
      have hmem : d.doc ∈ (numbered 0 ds).map SeqDoc.doc := List.mem_map_of_mem hd
      rw [map_doc_numbered] at hmem
      exact (words_contents_iff ds).mp hds.words d.doc hmem
    · apply validateOne_rejects (Nat.sub_le _ _)
      have hdrop : s.data.drop (s.len - rest.length) = rest := by
        rw [Bytes.len, hlen, Nat.add_sub_cancel]
        nth_rewrite 1 [hds.whole]
        exact List.drop_left
      intro w t hwt
      exact hds.stuck w t (hdrop.symm.trans hwt)
    · exact validateOne_rejects (Nat.zero_le _) fun w t hwt => hds.stuck w t hwt
  · intro T ds s hds hs
    have hcut : Factors (Doc (rules false) 0) s.data (contents ds) [] := by
      refine ⟨?_, (words_contents_iff ds).mpr hds, (prefixCode_doc _ _).factors_nil.stuck⟩
      rw [hs, List.append_nil]
    exact split_eq_of_factors hcut

/-- A frame: an exact length prefix and a closing NUL, whatever stands between. -/
def Frame (f : List UInt8) : Prop :=
  5 ≤ f.length ∧ f.length < 2 ^ 31 ∧ le32 f.length <+: f ∧ f.getLast? = some 0

theorem prefixCode_frame : PrefixCode Frame := by
  constructor
  · intro h
    have h5 := h.1
    simp at h5
  · intro v w r t hv hw he
    obtain ⟨-, hvl, ⟨v', hv'⟩, -⟩ := hv
    obtain ⟨-, hwl, ⟨w', hw'⟩, -⟩ := hw
    have hp : le32 v.length = le32 w.length := by
      have he' := he
      rw [← hv', ← hw', List.append_assoc, List.append_assoc] at he'
      exact (List.append_inj he' (by simp)).1
    exact (List.append_inj he (le32_inj (by omega) (by omega) hp)).1

theorem frame_of_doc {R : Rules} {k : ℕ} {d : List UInt8} (h : Doc R k d) : Frame d := by
  obtain ⟨h5, hlt, r, hr⟩ := h.prefix_length
  refine ⟨h5, hlt, ⟨r, hr.symm⟩, ?_⟩
  cases h with
  | document => simp

/-- Which frames `split` returns: those with only accepted frames before them. -/
theorem mem_split_of_frames {fs : List (Bytes T)} {s : Bytes T} (hfs : ∀ f ∈ fs, Frame f.data)
    (hs : s.data = (contents fs).flatten) : ∃ docs, split s = .ok docs ∧
      ∀ f, f ∈ docs.map SeqDoc.doc ↔
        ∃ pre post, fs = pre ++ f :: post ∧ (∀ g ∈ pre, AcceptedAlone g) ∧ AcceptedAlone f := by
  obtain ⟨ds, rest, hds, hsplit⟩ := split_factors s
  refine ⟨_, hsplit, fun f => ?_⟩
  rw [hs] at hds
  have hframes : ∀ w ∈ contents fs, Frame w := by
    simpa [contents] using hfs
  have hmem := hds.mem_iff_of_frames prefixCode_frame (fun _ => frame_of_doc) hframes f.data
  have hf : f ∈ ds ↔ f.data ∈ contents ds := by
    rw [contents, List.mem_map_of_injective fun _ _ h => Bytes.ext h]
  rw [map_doc_numbered, hf, hmem]
  constructor
  · intro h
    obtain ⟨pre, post, he, hpre, hfd⟩ := h
    obtain ⟨pre', post', rfl, rfl, hpost⟩ := List.map_eq_append_iff.mp he
    obtain ⟨f', post', rfl, hf', -⟩ := List.map_eq_cons_iff.mp hpost
    obtain rfl := Bytes.ext hf'
    exact ⟨pre', post', rfl, (words_contents_iff pre').mp hpre, (acceptedAlone_iff _).mpr hfd⟩
  · intro h
    obtain ⟨pre, post, rfl, hpre, hfa⟩ := h
    refine ⟨contents pre, contents post, ?_, (words_contents_iff pre).mpr hpre,
      (acceptedAlone_iff f).mp hfa⟩
    simp [contents]

/-- When splitting isolates errors: every accepted frame is returned exactly when each has an
occurrence with no rejected frame before it. -/
theorem split_isolates_iff (fs : List (Bytes T)) (s : Bytes T) (hfs : ∀ f ∈ fs, Frame f.data)
    (hs : s.data = (contents fs).flatten) :
    (∀ f ∈ fs, AcceptedAlone f → ∃ docs, split s = .ok docs ∧ f ∈ docs.map SeqDoc.doc) ↔
      ∀ f ∈ fs, AcceptedAlone f → ∃ pre post, fs = pre ++ f :: post ∧
        ∀ g ∈ pre, AcceptedAlone g := by
  obtain ⟨docs, hsplit, hmem⟩ := mem_split_of_frames hfs hs
  constructor
  · intro h f hf hfa
    obtain ⟨docs', hsplit', hf'⟩ := h f hf hfa
    rw [hsplit] at hsplit'
    cases hsplit'
    obtain ⟨pre, post, he, hpre, -⟩ := (hmem f).mp hf'
    exact ⟨pre, post, he, hpre⟩
  · intro h f hf hfa
    obtain ⟨pre, post, he, hpre⟩ := h f hf hfa
    exact ⟨docs, hsplit, (hmem f).mpr ⟨pre, post, he, hpre, hfa⟩⟩

/-- The document without elements. -/
def emptyDocument : Bytes .bits64 := ⟨[0x05, 0x00, 0x00, 0x00, 0x00], by decide⟩

/-- A frame whose body is one element of the unknown type 0x99. -/
def unknownTypeFrame : Bytes .bits64 :=
  ⟨[0x08, 0x00, 0x00, 0x00, 0x99, 0x61, 0x00, 0x00], by decide⟩

def unknownTypeStream : Bytes .bits64 := ⟨unknownTypeFrame.data ++ emptyDocument.data, by decide⟩

def documentFirstStream : Bytes .bits64 :=
  ⟨emptyDocument.data ++ unknownTypeFrame.data, by decide⟩

theorem frame_emptyDocument : Frame emptyDocument.data :=
  ⟨by decide, by decide, ⟨[0x00], by decide⟩, by decide⟩

theorem frame_unknownTypeFrame : Frame unknownTypeFrame.data :=
  ⟨by decide, by decide, ⟨[0x99, 0x61, 0x00, 0x00], by decide⟩, by decide⟩

theorem acceptedAlone_emptyDocument : AcceptedAlone emptyDocument :=
  ⟨by decide +kernel, by decide +kernel⟩

theorem split_isolates_documentFirst :
    (∀ f ∈ [emptyDocument, unknownTypeFrame], AcceptedAlone f →
      ∃ docs, split documentFirstStream = .ok docs ∧ f ∈ docs.map SeqDoc.doc) ↔
    ∀ f ∈ [emptyDocument, unknownTypeFrame], AcceptedAlone f →
      ∃ pre post, [emptyDocument, unknownTypeFrame] = pre ++ f :: post ∧
        ∀ g ∈ pre, AcceptedAlone g :=
  split_isolates_iff [emptyDocument, unknownTypeFrame] documentFirstStream
    (by simp [frame_emptyDocument, frame_unknownTypeFrame]) rfl

/-- A document behind a frame of unknown type is lost. -/
theorem split_loses_emptyDocument :
    (∀ f ∈ [unknownTypeFrame, emptyDocument], Frame f.data) ∧
    unknownTypeStream.data = (contents [unknownTypeFrame, emptyDocument]).flatten ∧
    AcceptedAlone emptyDocument ∧
    ¬ ∃ docs, split unknownTypeStream = .ok docs ∧ emptyDocument ∈ docs.map SeqDoc.doc := by
  refine ⟨?_, rfl, acceptedAlone_emptyDocument, ?_⟩
  · simp [frame_emptyDocument, frame_unknownTypeFrame]
  · intro h
    obtain ⟨docs, hsplit, hmem⟩ := h
    have hnil : split unknownTypeStream = .ok [] := by decide +kernel
    rw [hnil] at hsplit
    cases hsplit
    cases hmem

end VgiBson.SequenceSplitter
