import VgiBson.BsonEncoding
import VgiBson.DocumentDecoding

/-! # What is assumed of the value library

Each assumption is a documented behaviour of a function of the library, under a name. The library
`formatCrates` has all of them. -/

namespace VgiBson.CrateAssumptions

open MachineBytes BsonGrammar BsonValues BsonEncoding DocumentDecoding

/-- The byte string is as long as the length prefix it begins with. -/
def DeclaresOwnLength (d : List UInt8) : Prop :=
  5 ≤ d.length ∧ d.length < 2 ^ 31 ∧ le32 d.length <+: d

theorem declaresOwnLength_of_doc {R : Rules} {k : ℕ} {d : List UInt8} (h : Doc R k d) :
    DeclaresOwnLength d := by
  obtain ⟨h5, hlt, r, hr⟩ := h.prefix_length
  exact ⟨h5, hlt, ⟨r, hr.symm⟩⟩

/-- `Document::from_reader` consumes exactly the declared length of the first document. -/
def ReadsDeclaredLength (crates : Crates) : Prop :=
  ∀ d r, DeclaresOwnLength d → crates.fromReader (d ++ r) = crates.fromReader d

/-- The byte string begins with a document of the format, every length exact. -/
def BeginsWithDocument (b : List UInt8) : Prop := ∃ d r, b = d ++ r ∧ Doc specRules 0 d

/-- `Document::from_reader` accepts exactly the documents of the format. -/
def ReadsFormat (crates : Crates) : Prop :=
  ∀ b, (∃ doc, crates.fromReader b = .ok doc) ↔ BeginsWithDocument b

/-- No document in the value has a key with a NUL. -/
def KeysNulFree (v : Bson) : Prop :=
  Throughout (fun ks => ∀ k ∈ ks, NulFree k) (fun _ => True) v

/-- `Document::to_writer` rejects keys with a NUL and otherwise emits the encoding of the format,
whose lengths are 32-bit. -/
def WritesFormat (crates : Crates) : Prop :=
  ∀ doc b, crates.toWriter doc = .ok b →
    KeysNulFree (.document doc) ∧ b = documentBytes doc ∧ b.length < 2 ^ 31

/-- The document with the value of an existing key replaced in place, or with a new element at the
end. -/
def insertField (doc : Document) (key : String) (v : Bson) : Document :=
  if key ∈ doc.map Prod.fst then doc.map fun f => if f.1 = key then (key, v) else f
  else doc ++ [(key, v)]

/-- `Document::insert` replaces the value of an existing key. -/
def InsertReplaces (crates : Crates) : Prop :=
  ∀ doc key v, crates.insert doc key v = insertField doc key v

/-- `Document::get` finds the element with the key. -/
def GetFinds (crates : Crates) : Prop :=
  ∀ doc key, crates.get doc key = (doc.find? (·.1 = key)).map Prod.snd

/-- Byte strings that declare their own length can be told apart from what follows them. -/
theorem DeclaresOwnLength.append_inj {d d' r r' : List UInt8} (hd : DeclaresOwnLength d)
    (hd' : DeclaresOwnLength d') (h : d ++ r = d' ++ r') : d = d' ∧ r = r' := by
  obtain ⟨-, hlt, u, hu⟩ := hd
  obtain ⟨-, hlt', u', hu'⟩ := hd'
  have hp : le32 d.length = le32 d'.length := by
    have he := h
    rw [← hu, ← hu', List.append_assoc, List.append_assoc] at he
    exact (List.append_inj he (by simp)).1
  exact List.append_inj h (le32_inj (by omega) (by omega) hp)

theorem beginsWithDocument_append_iff {d r : List UInt8} (hd : DeclaresOwnLength d) :
    BeginsWithDocument (d ++ r) ↔ BeginsWithDocument d := by
  constructor
  · intro h
    obtain ⟨d', r', he, hd'⟩ := h
    obtain ⟨rfl, -⟩ := hd.append_inj (declaresOwnLength_of_doc hd') he
    exact ⟨d, [], (List.append_nil d).symm, hd'⟩
  · intro h
    obtain ⟨d', r', rfl, hd'⟩ := h
    exact ⟨d', r' ++ r, List.append_assoc _ _ _, hd'⟩

/-- The byte string begins with the bytes of the document. -/
def BeginsWith (doc : Document) (b : List UInt8) : Prop :=
  (documentBytes doc).length < 2 ^ 31 ∧ documentBytes doc <+: b

theorem declaresOwnLength_documentBytes {doc : Document} (h : (documentBytes doc).length < 2 ^ 31) :
    DeclaresOwnLength (documentBytes doc) := by
  refine ⟨?_, h, ?_⟩
  · rw [documentBytes, length_framed]
    omega
  · rw [documentBytes, length_framed, framed, List.append_assoc]
    exact List.prefix_append _ _

theorem beginsWith_append_iff {doc : Document} {d r : List UInt8} (hd : DeclaresOwnLength d) :
    BeginsWith doc (d ++ r) ↔ BeginsWith doc d := by
  constructor
  · intro h
    obtain ⟨hlen, r', he⟩ := h
    obtain ⟨he', -⟩ := (declaresOwnLength_documentBytes hlen).append_inj hd he
    exact ⟨hlen, he' ▸ List.prefix_rfl⟩
  · intro h
    exact ⟨h.1, h.2.trans (List.prefix_append d r)⟩

open Classical in
/-- A value library with the behaviours above: it reads a document back from its bytes. Nothing is
asked of the other functions. -/
noncomputable def formatCrates : Crates where
  fromReader b :=
    if BeginsWithDocument b then .ok (epsilon fun doc => BeginsWith doc b)
    else .error "invalid document"
  toWriter doc :=
    if KeysNulFree (.document doc) ∧ (documentBytes doc).length < 2 ^ 31 then
      .ok (documentBytes doc)
    else .error "key contains a NUL"
  get doc key := (doc.find? (·.1 = key)).map Prod.snd
  insert := insertField
  keys doc := doc.map Prod.fst
  display _ := ""
  intoCanonicalExtjson _ := .object []
  intoRelaxedExtjson _ := .object []
  tryFrom _ := .ok (.document [])
  jsonToString _ := "\x7b\x7d"
  jsonFromStr _ := .ok (.object [])
  toHex _ := ""
  decimalToString _ := ""
  decimalFromStr _ := .error ""
  hexEncode _ := ""
  doubleToString _ := ""

theorem readsFormat_formatCrates : ReadsFormat formatCrates := by
  intro b
  by_cases h : BeginsWithDocument b <;> simp [formatCrates, h]

theorem readsDeclaredLength_formatCrates : ReadsDeclaredLength formatCrates := by
  intro d r hd
  have hread : (fun doc => BeginsWith doc (d ++ r)) = fun doc => BeginsWith doc d :=
    funext fun doc => propext (beginsWith_append_iff hd)
  have hdoc := @beginsWithDocument_append_iff d r hd
  simp only [formatCrates, hread]
  by_cases h : BeginsWithDocument d
  · rw [if_pos h, if_pos (hdoc.mpr h)]
  · rw [if_neg h, if_neg (mt hdoc.mp h)]

theorem writesFormat_formatCrates : WritesFormat formatCrates := by
  intro doc b h
  simp only [formatCrates] at h
  split at h
  · next hdoc =>
    cases h
    exact ⟨hdoc.1, rfl, hdoc.2⟩
  · cases h

theorem insertReplaces_formatCrates : InsertReplaces formatCrates := fun _ _ _ => rfl

theorem getFinds_formatCrates : GetFinds formatCrates := fun _ _ => rfl

end VgiBson.CrateAssumptions
