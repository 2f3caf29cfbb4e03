import VgiBson.DocumentLocality
import VgiBson.SequenceSplitter
import VgiBson.ValidatorStrictness

/-! # Streams that are cut short

A stream that ends too early loses the documents that no longer fit and no others. The readers of a
single document see the first document of a stream and nothing behind it. -/

namespace VgiBson.TruncatedStreams

open MachineBytes CursorWalks CursorLanguages StructuralValidator ValidatorGrammar BsonGrammar
  PrefixCodes BsonValues DocumentDecoding FieldProjection CrateAssumptions SequenceSplitter
  ValidatorStrictness DocumentLocality

variable {T : Target} {crates : Crates}

/-- Where the `k`-th document of a stream ends, counting from one. -/
def endOf (docs : List (SeqDoc T)) (k : ℕ) : ℕ := ((docs.take k).map fun d => d.doc.len).sum

theorem take_numbered (i k : ℕ) (ds : List (Bytes T)) :
    (numbered i ds).take k = numbered i (ds.take k) := by
  induction ds generalizing i k with
  | nil =>
    rw [List.take_nil]
    exact List.take_nil
  | cons d ds ih =>
    cases k with
    | zero => rfl
    | succ k => rw [numbered, List.take_succ_cons, List.take_succ_cons, numbered, ih]

theorem take_contents (k : ℕ) (ds : List (Bytes T)) : (contents ds).take k = contents (ds.take k) :=
  List.map_take.symm

theorem endOf_numbered (i k : ℕ) (ds : List (Bytes T)) :
    endOf (numbered i ds) k = ((contents ds).take k).flatten.length := by
  rw [endOf, take_numbered, take_contents, List.length_flatten]
  have hdocs : (numbered i (ds.take k)).map (fun d => d.doc.len) =
      ((numbered i (ds.take k)).map SeqDoc.doc).map Bytes.len := by
    rw [List.map_map]
    rfl
  rw [hdocs, map_doc_numbered, contents, List.map_map]
  rfl

/-- A stream cut short loses only what is cut off: it is split into the documents that end
before the cut. -/
theorem split_cut (s s' : Bytes T) (h : s'.data <+: s.data) :
    ∃ docs k, split s = .ok docs ∧ k ≤ docs.length ∧ split s' = .ok (docs.take k) ∧
      endOf docs k ≤ s'.len ∧ ∀ j, k < j → j ≤ docs.length → s'.len < endOf docs j := by
  obtain ⟨ds, rest, hds, hs⟩ := split_factors s
  obtain ⟨k, rest', hk, hcut, hin, hout⟩ := hds.take (prefixCode_doc _ _) s'.len
  have hdata : s.data.take s'.len = s'.data := (List.prefix_iff_eq_take.mp h).symm
  rw [hdata, take_contents] at hcut
  have hlen : (contents ds).length = (numbered 0 ds).length := by
    rw [contents, List.length_map, length_numbered]
  refine ⟨numbered 0 ds, k, hs, hlen ▸ hk, ?_, ?_, ?_⟩
  · rw [take_numbered]
    exact split_eq_of_factors hcut
  · rwa [endOf_numbered]
  · intro j hj hle
    rw [endOf_numbered]
    exact hout j hj (hlen ▸ hle)

/-- Two empty documents, the second without its last byte. -/
def cutDocuments : Bytes .bits64 :=
  ⟨emptyDocument.data ++ emptyDocument.data.take 4, by decide⟩

theorem split_cut_emptyDocument :
    ∃ docs k, split (⟨emptyDocument.data ++ emptyDocument.data, by decide⟩ : Bytes .bits64) =
        .ok docs ∧ k ≤ docs.length ∧ split cutDocuments = .ok (docs.take k) ∧
      endOf docs k ≤ cutDocuments.len ∧
      ∀ j, k < j → j ≤ docs.length → cutDocuments.len < endOf docs j :=
  split_cut _ cutDocuments ⟨[0], by decide⟩

/-- A stream without documents is rejected at its start. -/
theorem precheck_of_stuck {s : Bytes T} (h : ∀ w t, s.data = w ++ t → ¬ Doc (rules false) 0 w) :
    ∃ e, precheck s = .error (.error e) :=
  validateOne_rejects (Nat.zero_le _) fun w t hwt => h w t hwt

theorem decodeDocument_of_error {b : Bytes T} {e : Stop DecodeError}
    (h : precheck b = .error e) : decodeDocument crates b = .error e := by
  rw [decodeDocument, h]
  rfl

/-- An accepted document is the only one of its stream. -/
theorem split_of_acceptedAlone {b : Bytes T} (h : AcceptedAlone b) : split b = .ok [⟨0, b⟩] := by
  have hcut : Factors (Doc (rules false) 0) b.data (contents [b]) [] :=
    ⟨by simp [contents], by simpa [contents] using (acceptedAlone_iff b).mp h,
      (prefixCode_doc _ _).factors_nil.stuck⟩
  exact split_eq_of_factors hcut

/-- The readers of one document read the head of a stream: for every stream they give what they
give for the first document that `split` returns, and the error of the validator if there is none.
A valid blob is the only document of its stream. -/
theorem readers_read_head (crates : Crates) (hcrates : ReadsDeclaredLength crates) (s : Bytes T) :
    ∃ docs, split s = .ok docs ∧
      (∀ d, docs.head? = some d →
        decodeDocument crates s = decodeDocument crates d.doc ∧
        (∀ mode, toJson crates s mode = toJson crates d.doc mode) ∧
        keys crates s = keys crates d.doc ∧
        (∀ path mode, field crates s path mode = field crates d.doc path mode) ∧
        ∀ path, typeOf crates s path = typeOf crates d.doc path) ∧
      (docs = [] → ∃ e, precheck s = .error (.error e) ∧
        decodeDocument crates s = .error (.error e) ∧
        (∀ mode, toJson crates s mode = .error (.error e)) ∧
        keys crates s = .error (.error e) ∧
        (∀ path mode, field crates s path mode = .error (.error e)) ∧
        ∀ path, typeOf crates s path = .error (.error e)) ∧
      (validate s = .ok () → docs = [⟨0, s⟩]) := by
  obtain ⟨ds, rest, hds, hs⟩ := split_factors s
  refine ⟨numbered 0 ds, hs, ?_, ?_, ?_⟩
  · intro d hd
    cases ds with
    | nil => cases hd
    | cons d' ds =>
      cases hd
      have hd' := (words_contents_iff _).mp hds.words d' List.mem_cons_self
      have hwhole : s.data = d'.data ++ ((contents ds).flatten ++ rest) := by
        rw [hds.whole, contents, List.map_cons, List.flatten_cons, List.append_assoc]
        rfl
      have hdecode := decodeDocument_append hcrates hwhole hd'
      exact ⟨hdecode, readers_congr crates hdecode⟩
  · intro hnil
    have hlen := congrArg List.length hnil
    rw [length_numbered] at hlen
    obtain rfl := List.length_eq_zero_iff.mp hlen
    have hrest : s.data = rest := hds.whole
    obtain ⟨e, he⟩ := precheck_of_stuck fun w t hwt => hds.stuck w t (hrest.symm.trans hwt)
    have hdecode : decodeDocument crates s = .error (.error e) := decodeDocument_of_error he
    exact ⟨e, he, hdecode, readers_of_error crates hdecode⟩
  · intro hvalid
    have haccepted : AcceptedAlone s :=
      (agrees_validateDoc s 0).yields ((validate_ok_iff_yields s).mp hvalid)
    have hsplit := split_of_acceptedAlone haccepted
    rw [hs] at hsplit
    exact Except.ok.inj hsplit

theorem readers_read_head_cutDocuments :
    decodeDocument formatCrates cutDocuments = decodeDocument formatCrates emptyDocument := by
  obtain ⟨docs, hdocs, hhead, -⟩ :=
    readers_read_head formatCrates readsDeclaredLength_formatCrates cutDocuments
  have hsplit : split cutDocuments = .ok [⟨0, emptyDocument⟩] := by decide +kernel
  rw [hsplit] at hdocs
  obtain rfl := Except.ok.inj hdocs
  exact (hhead ⟨0, emptyDocument⟩ rfl).1

end VgiBson.TruncatedStreams
