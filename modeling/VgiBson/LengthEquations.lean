import VgiBson.CrateAssumptions
import VgiBson.ValidatorStrictness

/-! # Where the validator and the decoder part

The validator reads two lengths without comparing them. A document it accepts is a document of the
format exactly when these lengths are right in every value, however deep. -/

namespace VgiBson.LengthEquations

open MachineBytes CursorWalks StructuralValidator ValidatorGrammar BsonGrammar BsonValues
  BsonEncoding DocumentDecoding CrateAssumptions

variable {T : Target}

/-- The kinds of byte strings that values occur in. -/
inductive Place where
  | document
  | elements
  | pieces (ps : List Piece)

def place : Phrase → Place
  | .document _ => .document
  | .elements _ _ => .elements
  | .pieces _ ps => .pieces ps

/-- Any nesting, any keys, any lengths that the pieces leave open. -/
def anyRules : Rules where
  level _ := True
  keys _ := True
  value _ _ := True

/-- A value of type `ty` with the bytes `v` stands in the byte string, at any depth. -/
inductive Occurs (ty : UInt8) (v : List UInt8) : Place → List UInt8 → Prop
  | body {body} (inner : Occurs ty v .elements body) : Occurs ty v .document (framed body)
  | here {k ps key body} (known : layout ty = some ps) (nulFree : NulFree key)
      (value : Derives anyRules (.pieces k ps) v) :
      Occurs ty v .elements (ty :: (utf8 key ++ 0 :: (v ++ body)))
  | inside {k ty' ps key v' body} (known : layout ty' = some ps) (nulFree : NulFree key)
      (value : Derives anyRules (.pieces k ps) v') (inner : Occurs ty v (.pieces ps) v') :
      Occurs ty v .elements (ty' :: (utf8 key ++ 0 :: (v' ++ body)))
  | later {k ty' ps key v' body} (known : layout ty' = some ps) (nulFree : NulFree key)
      (value : Derives anyRules (.pieces k ps) v') (inner : Occurs ty v .elements body) :
      Occurs ty v .elements (ty' :: (utf8 key ++ 0 :: (v' ++ body)))
  | nested {k d ps w} (doc : Doc anyRules (k + 1) d) (inner : Occurs ty v .document d) :
      Occurs ty v (.pieces (.document :: ps)) (d ++ w)
  | after {k p ps u w} (word : Word anyRules k p u) (inner : Occurs ty v (.pieces ps) w) :
      Occurs ty v (.pieces (p :: ps)) (u ++ w)

/-- In a document of the format every value has exact lengths. -/
theorem lengthExact_of_occurs {ty : UInt8} {v b : List UInt8} {pl : Place}
    (ho : Occurs ty v pl b) (ph : Phrase) (hph : place ph = pl) (h : Derives specRules ph b) :
    LengthExact ty v := by
  induction ho generalizing ph with
  | body _ ih =>
    cases ph with
    | document k =>
      obtain ⟨-, -, keys, -, hbody⟩ := doc_framed_iff.mp h
      exact ih (.elements k keys) rfl hbody
    | _ => cases hph
  | here known nulFree value =>
    cases ph with
    | elements k keys =>
      obtain ⟨-, -, -, hx, -⟩ := h.element_inv nulFree known value
      exact hx
    | _ => cases hph
  | inside known nulFree value _ ih =>
    cases ph with
    | elements k keys =>
      obtain ⟨-, -, hv, -, -⟩ := h.element_inv nulFree known value
      exact ih (.pieces k _) rfl hv
    | _ => cases hph
  | later known nulFree value _ ih =>
    cases ph with
    | elements k keys =>
      obtain ⟨keys', -, -, -, hrest⟩ := h.element_inv nulFree known value
      exact ih (.elements k keys') rfl hrest
    | _ => cases hph
  | @nested k' d ps w doc _ ih =>
    cases ph with
    | pieces k ps' =>
      cases hph
      have hd : Word anyRules k' .document d := doc
      exact ih (.document (k + 1)) rfl (derives_cons_inv h hd).1
    | _ => cases hph
  | after word _ ih =>
    cases ph with
    | pieces k ps' =>
      cases hph
      exact ih (.pieces k _) rfl (derives_cons_inv h word).2
    | _ => cases hph

/-- A derivation whose values all have exact lengths is one of the format. -/
theorem derives_spec_of_occurs {ph : Phrase} {b : List UInt8} (h : Derives anyRules ph b)
    (hx : ∀ ty v, Occurs ty v (place ph) b → LengthExact ty v) : Derives specRules ph b := by
  -- the pieces before the rest of a value are words, so occurrences in the rest lift to the value
  have hafter {k : ℕ} {p : Piece} {ps : List Piece} {u w : List UInt8} (hu : Word anyRules k p u)
      (hx : ∀ ty v, Occurs ty v (.pieces (p :: ps)) (u ++ w) → LengthExact ty v) :
      ∀ ty v, Occurs ty v (.pieces ps) w → LengthExact ty v :=
    fun ty v ho => hx ty v (.after hu ho)
  induction h with
  | document _ _ _ hn ih =>
    exact .document trivial (ih fun ty v ho => hx ty v (.body ho)) trivial hn
  | noElements => exact .noElements
  | element hty hkey hv _ _ ihv ihr =>
    refine .element hty hkey (ihv fun ty v ho => ?_) (hx _ _ (.here hty hkey hv))
      (ihr fun ty v ho => ?_)
    · exact hx ty v (.inside hty hkey hv ho)
    · exact hx ty v (.later hty hkey hv ho)
  | noPieces => exact .noPieces
  | @raw k n v _ _ hl _ ih =>
    have hw : Word anyRules k (.raw n) v := hl
    exact .raw hl (ih (hafter hw hx))
  | @boolean k b _ _ hb _ ih =>
    have hw : Word anyRules k .boolean [b] := by simpa [Word] using hb
    exact .boolean hb (ih (hafter hw hx))
  | @text k s _ _ hs _ ih =>
    have hw : Word anyRules k .text _ := ⟨s, hs, rfl⟩
    exact .text hs (ih (hafter hw hx))
  | @cstring k s _ _ hs _ ih =>
    have hw : Word anyRules k .cstring _ := ⟨s, hs, rfl⟩
    exact .cstring hs (ih (hafter hw hx))
  | @binary k st v _ _ hs _ ih =>
    have hw : Word anyRules k .binary _ := ⟨st, v, hs, rfl⟩
    exact .binary hs (ih (hafter hw hx))
  | @size k n _ _ hs _ ih =>
    have hw : Word anyRules k .size _ := ⟨n, hs, rfl⟩
    exact .size hs (ih (hafter hw hx))
  | @nested k d _ _ hd _ ihd ihr =>
    have hw : Word anyRules k .document d := hd
    exact .nested (ihd fun ty v ho => hx ty v (.nested hd ho)) (ihr (hafter hw hx))

/-- A document with any lengths is one of the format exactly when all its values are exact. -/
theorem doc_spec_iff {k : ℕ} {b : List UInt8} (h : Doc anyRules k b) :
    Doc specRules k b ↔ ∀ ty v, Occurs ty v .document b → LengthExact ty v := by
  constructor
  · intro hspec ty v ho
    exact lengthExact_of_occurs ho (.document k) rfl hspec
  · exact derives_spec_of_occurs h

theorem doc_any_of_validate {b : Bytes T} (h : validate b = .ok ()) : Doc anyRules 0 b.data :=
  (((yields_validateDoc_full b 0 true).mp ((validate_ok_iff_yields b).mp h)).mono
    (fun _ _ => trivial) (fun _ _ => trivial) fun _ _ _ => trivial)

theorem precheck_of_validate {b : Bytes T} (h : validate b = .ok ()) : precheck b = .ok () :=
  ((ValidatorStrictness.agrees_validateDoc b 0).yields ((validate_ok_iff_yields b).mp h)).1

/-- A document begins with a document of the format only by being one. -/
theorem beginsWithDocument_iff {R : Rules} {k : ℕ} {b : List UInt8} (h : Doc R k b) :
    BeginsWithDocument b ↔ Doc specRules 0 b := by
  constructor
  · intro hb
    obtain ⟨d, r, he, hd⟩ := hb
    obtain ⟨rfl, -⟩ := h.append_inj hd ((List.append_nil b).trans he)
    exact hd
  · intro hd
    exact ⟨b, [], (List.append_nil b).symm, hd⟩

/-- Decoding a valid blob succeeds exactly when its values have exact lengths. -/
theorem decode_valid_iff {crates : Crates} (hcrates : ReadsFormat crates) {b : Bytes T}
    (hb : validate b = .ok ()) : (∃ doc, decodeDocument crates b = .ok doc) ↔
      ∀ ty v, Occurs ty v .document b.data → LengthExact ty v := by
  have hany := doc_any_of_validate hb
  rw [← doc_spec_iff hany, ← beginsWithDocument_iff hany, ← hcrates]
  simp only [decodeDocument_eq_ok_iff, precheck_of_validate hb, true_and]

theorem admits_rules : Admits (rules true) := ⟨fun _ h _ => h, fun _ _ _ => trivial⟩

/-- The validator accepts the encoding of a storable document up to its nesting limit. -/
theorem validate_documentBytes_iff {b : Bytes T} {doc : Document} (hb : b.data = documentBytes doc)
    (hs : Storable (.document doc)) (hlen : b.data.length < 2 ^ 31) :
    validate b = .ok () ↔ levels (.document doc) ≤ maxNesting + 1 := by
  have hpos : 0 < levels (.document doc) := Nat.succ_pos _
  rw [hb] at hlen
  rw [validate_ok_iff_yields, yields_validateDoc_full, hb,
    doc_documentBytes_iff admits_rules hs hlen]
  constructor
  · intro h
    have hk : levels (.document doc) - 1 ≤ maxNesting := h _ (Nat.zero_le _) (by omega)
    omega
  · intro h j _ hj
    have hk : j ≤ maxNesting := by omega
    exact hk

/-- The decoder accepts the encoding of a storable document. -/
theorem decode_documentBytes {crates : Crates} (hread : ReadsFormat crates) {b : Bytes T}
    {doc : Document} (hb : b.data = documentBytes doc) (hs : Storable (.document doc))
    (hlen : b.data.length < 2 ^ 31) (hvalid : validate b = .ok ()) :
    ∃ doc', decodeDocument crates b = .ok doc' := by
  rw [hb] at hlen
  have hspec : Doc specRules 0 b.data := by
    rw [hb, doc_documentBytes_iff admits_specRules hs hlen]
    exact fun _ _ _ => trivial
  simp only [decodeDocument_eq_ok_iff, precheck_of_validate hvalid, true_and]
  exact (hread b.data).mpr ((beginsWithDocument_iff hspec).mpr hspec)

/-- When the decoder agrees with the validator: on a valid blob it succeeds exactly when the
total of every code with scope and the inner length of every old-style binary is right. -/
theorem decode_accepts_valid_iff (crates : Crates) (hcrates : ReadsFormat crates) (b : Bytes T)
    (hb : validate b = .ok ()) : (∃ doc, decodeDocument crates b = .ok doc) ↔
      ∀ ty v, Occurs ty v .document b.data →
        (ty = 0x0F → le32 v.length <+: v) ∧
          (ty = 0x05 → v[4]? = some 0x02 → 9 ≤ v.length ∧ le32 (v.length - 9) <+: v.drop 5) :=
  decode_valid_iff hcrates hb

/-- The empty code with the empty scope, behind a total. -/
def scopedValue (total : ℕ) : List UInt8 := le32 total ++ (encodeText "" ++ framed [])

/-- A document with this value under the key `a`. -/
def scopedDocument (total : ℕ) : List UInt8 :=
  framed (0x0F :: (utf8 "a" ++ 0 :: (scopedValue total ++ [])))

theorem occurs_scopedValue {total : ℕ} (h : total < 2 ^ 31) :
    Occurs 0x0F (scopedValue total) .document (scopedDocument total) := by
  have hscope : Doc anyRules 1 (framed []) :=
    doc_framed_iff.mpr ⟨trivial, by decide, [], trivial, .noElements⟩
  have hvalue : Derives anyRules (.pieces 0 [.size, .text, .document]) (scopedValue total) :=
    derives_pieces_cons.mpr ⟨_, _, rfl, ⟨total, h, rfl⟩,
      derives_two (word_encodeText (by decide)) hscope⟩
  exact .body (.here rfl (by decide) hvalue)

def exactTotalDocument : Bytes .bits64 := ⟨scopedDocument 14, by decide⟩

theorem decode_accepts_valid_exactTotal :
    Occurs 0x0F (scopedValue 14) .document exactTotalDocument.data ∧
    ((∃ doc, decodeDocument formatCrates exactTotalDocument = .ok doc) ↔
      ∀ ty v, Occurs ty v .document exactTotalDocument.data →
        (ty = 0x0F → le32 v.length <+: v) ∧
          (ty = 0x05 → v[4]? = some 0x02 → 9 ≤ v.length ∧ le32 (v.length - 9) <+: v.drop 5)) :=
  ⟨occurs_scopedValue (by decide), decode_accepts_valid_iff formatCrates readsFormat_formatCrates
    exactTotalDocument (by decide +kernel)⟩

/-- The same document with a total of zero. -/
def zeroTotalDocument : Bytes .bits64 := ⟨scopedDocument 0, by decide⟩

/-- The validator accepts `16 00 00 00 0F 61 00 00 00 00 00 01 00 00 00 00 05 00 00 00 00 00`, and
no decoder of the format does. -/
theorem decode_rejects_zeroTotalDocument :
    zeroTotalDocument.data = [0x16, 0x00, 0x00, 0x00, 0x0F, 0x61, 0x00, 0x00, 0x00, 0x00, 0x00,
      0x01, 0x00, 0x00, 0x00, 0x00, 0x05, 0x00, 0x00, 0x00, 0x00, 0x00] ∧
    validate zeroTotalDocument = .ok () ∧ ReadsFormat formatCrates ∧
    ∀ crates, ReadsFormat crates → ¬ ∃ doc, decodeDocument crates zeroTotalDocument = .ok doc := by
  have hvalid : validate zeroTotalDocument = .ok () := by decide +kernel
  refine ⟨by decide, hvalid, readsFormat_formatCrates, fun crates hcrates hdoc => ?_⟩
  have hexact := (decode_valid_iff hcrates hvalid).mp hdoc _ _ (occurs_scopedValue (by decide))
  exact absurd (hexact.1 rfl) (by decide)

end VgiBson.LengthEquations
