import Mathlib
import VgiBson.BsonGrammar
import VgiBson.BsonValues

/-! # The encoding of the format

The byte string that the format assigns to a value tree, and the grammars that derive it: those that
allow distinct keys, exact lengths and the nesting levels that the tree really has. -/

namespace VgiBson.BsonEncoding

open MachineBytes BsonGrammar BsonValues

def encodeText (s : String) : List UInt8 := le32 ((utf8 s).length + 1) ++ utf8 s ++ [0]

def encodeCstring (s : String) : List UInt8 := utf8 s ++ [0]

/-- An old-style binary repeats its data length in front of the data. -/
def encodeBinary (subtype : UInt8) (bytes : List UInt8) : List UInt8 :=
  if subtype = 0x02 then le32 (bytes.length + 4) ++ [subtype] ++ (le32 bytes.length ++ bytes)
  else le32 bytes.length ++ [subtype] ++ bytes

mutual

/-- The bytes of a value. -/
def encodeValue : Bson → List UInt8
  | .double bits => le64 bits.toNat
  | .string s => encodeText s
  | .array items => framed (encodeItems 0 items)
  | .document fields => framed (encodeFields fields)
  | .boolean b => [if b then 1 else 0]
  | .null => []
  | .regularExpression pattern options => encodeCstring pattern ++ encodeCstring options
  | .javaScriptCode code => encodeText code
  | .javaScriptCodeWithScope code scope =>
    le32 ((encodeText code ++ framed (encodeFields scope)).length + 4) ++
      (encodeText code ++ framed (encodeFields scope))
  | .int32 i => le32 i.toUInt32.toNat
  | .int64 i => le64 i.toUInt64.toNat
  | .timestamp time increment => le32 increment.toNat ++ le32 time.toNat
  | .binary subtype bytes => encodeBinary subtype.toByte bytes
  | .objectId bytes => bytes.toList
  | .dateTime millis => le64 millis.toUInt64.toNat
  | .symbol s => encodeText s
  | .decimal128 bytes => bytes.toList
  | .undefined => []
  | .maxKey => []
  | .minKey => []
  | .dbPointer ns id => encodeText ns ++ id.toList

/-- The elements of an array, whose keys are the decimal indices from `i` on. -/
def encodeItems (i : ℕ) : List Bson → List UInt8
  | [] => []
  | v :: vs =>
    v.elementType.toByte :: (utf8 i.repr ++ 0 :: (encodeValue v ++ encodeItems (i + 1) vs))

def encodeFields : List (String × Bson) → List UInt8
  | [] => []
  | (key, v) :: fs => v.elementType.toByte :: (utf8 key ++ 0 :: (encodeValue v ++ encodeFields fs))

end

/-- The bytes of a document. -/
def documentBytes (doc : Document) : List UInt8 := framed (encodeFields doc)

/-- The key lists that the format can hold. -/
def StorableKeys (ks : List String) : Prop := ks.Nodup ∧ ∀ k ∈ ks, NulFree k

/-- The other values that the format can hold. -/
def StorableLeaf : Bson → Prop
  | .regularExpression pattern options => NulFree pattern ∧ NulFree options
  | _ => True

/-- What the format can hold: distinct keys and cstrings without NUL. -/
abbrev Storable (v : Bson) : Prop := Throughout StorableKeys StorableLeaf v

/-- The pieces of a value's type. -/
def pieces (v : Bson) : List Piece := (layout v.elementType.toByte).getD []

theorem layout_elementType (v : Bson) : layout v.elementType.toByte = some (pieces v) := by
  cases v <;> rfl

/-- The keys of an array of `n` items from index `i` on. -/
def indexKeys (i n : ℕ) : List String := (List.range' i n).map Nat.repr

theorem nulFree_repr (n : ℕ) : NulFree n.repr := by
  intro h
  rw [Nat.repr, utf8_ofList] at h
  obtain ⟨c, hc, h0⟩ := List.mem_flatMap.mp h
  have hd := Nat.isDigit_of_mem_toDigits (by decide) (by decide) hc
  have hv := zero_mem_utf8EncodeChar h0
  simp only [Char.isDigit, Bool.and_eq_true, decide_eq_true_eq, UInt32.le_iff_toNat_le] at hd
  rw [hv] at hd
  exact absurd hd.1 (by decide)

theorem nodup_indexKeys (i n : ℕ) : (indexKeys i n).Nodup :=
  List.Nodup.map (fun _ _ h => Nat.repr_inj.mp h) List.nodup_range'

/-- The encoding settles the lengths that the pieces leave open. -/
theorem lengthExact_encodeValue (v : Bson) :
    LengthExact v.elementType.toByte (encodeValue v) := by
  constructor
  · intro hty
    cases v with
    | javaScriptCodeWithScope code scope =>
      simp only [encodeValue]
      rw [List.length_append, length_le32, Nat.add_comm 4]
      exact List.prefix_append _ _
    | _ => simp [Bson.elementType, ElementType.toByte] at hty
  · intro hty hold
    cases v with
    | binary subtype bytes =>
      simp only [encodeValue, encodeBinary] at hold ⊢
      by_cases hs : subtype.toByte = 0x02
      · rw [if_pos hs] at hold ⊢
        simp only [List.length_append, length_le32, List.length_singleton, List.append_assoc]
        refine ⟨by omega, bytes, ?_⟩
        have hlen : 4 + (1 + (4 + bytes.length)) - 9 = bytes.length := by omega
        rw [hlen, le32]
        rfl
      · rw [if_neg hs] at hold
        exact absurd (Option.some.inj hold) hs
    | _ => simp [Bson.elementType, ElementType.toByte] at hty

/-- A grammar that allows distinct keys and exact values. -/
structure Admits (R : Rules) : Prop where
  keys : ∀ ks, ks.Nodup → R.keys ks
  value : ∀ ty v, LengthExact ty v → R.value ty v

theorem admits_specRules : Admits specRules := ⟨fun _ _ => trivial, fun _ _ h => h⟩

theorem word_encodeText {R : Rules} {k : ℕ} {s : String} (h : (encodeText s).length < 2 ^ 31) :
    Word R k .text (encodeText s) := by
  simp only [encodeText, List.length_append, length_le32, List.length_singleton] at h
  exact ⟨s, by omega, rfl⟩

theorem word_encodeBinary {R : Rules} {k : ℕ} {subtype : UInt8} {bytes : List UInt8}
    (h : (encodeBinary subtype bytes).length < 2 ^ 31) :
    Word R k .binary (encodeBinary subtype bytes) := by
  simp only [encodeBinary] at h ⊢
  split at h
  · next hs =>
    simp only [List.length_append, length_le32, List.length_singleton] at h
    rw [if_pos hs]
    refine ⟨subtype, le32 bytes.length ++ bytes, ?_, ?_⟩
    · simp only [List.length_append, length_le32]
      omega
    · rw [List.length_append, length_le32, Nat.add_comm 4]
  · next hs =>
    simp only [List.length_append, length_le32, List.length_singleton] at h
    rw [if_neg hs]
    exact ⟨subtype, bytes, by omega, rfl⟩

theorem derives_one {R : Rules} {k : ℕ} {p : Piece} {v : List UInt8} (h : Word R k p v) :
    Derives R (.pieces k [p]) v :=
  derives_pieces_cons.mpr ⟨v, [], (List.append_nil v).symm, h, .noPieces⟩

theorem derives_two {R : Rules} {k : ℕ} {p q : Piece} {v w : List UInt8} (h : Word R k p v)
    (h' : Word R k q w) : Derives R (.pieces k [p, q]) (v ++ w) :=
  derives_pieces_cons.mpr ⟨v, w, rfl, h, derives_one h'⟩

theorem length_encodeItems_cons (i : ℕ) (v : Bson) (vs : List Bson) :
    (encodeItems i (v :: vs)).length =
      (utf8 i.repr).length + (encodeValue v).length + (encodeItems (i + 1) vs).length + 2 := by
  simp only [encodeItems, List.length_cons, List.length_append]
  omega

theorem length_encodeFields_cons (key : String) (v : Bson) (fs : Document) :
    (encodeFields ((key, v) :: fs)).length =
      (utf8 key).length + (encodeValue v).length + (encodeFields fs).length + 2 := by
  simp only [encodeFields, List.length_cons, List.length_append]
  omega

theorem indexKeys_succ (i n : ℕ) : indexKeys i (n + 1) = i.repr :: indexKeys (i + 1) n := by
  rw [indexKeys, List.range'_succ, List.map_cons]
  rfl

mutual

/-- A storable value is derived wherever the levels below it are allowed. -/
theorem derives_encodeValue {R : Rules} (hR : Admits R) (v : Bson) {k : ℕ} (hs : Storable v)
    (hn : (encodeValue v).length < 2 ^ 31) (hk : ∀ j, k < j → j ≤ k + levels v → R.level j) :
    Derives R (.pieces k (pieces v)) (encodeValue v) := by
  cases v with
  | double bits => exact derives_one (length_le64 _)
  | string s => exact derives_one (word_encodeText hn)
  | array items =>
    simp only [Throughout] at hs
    simp only [encodeValue, length_framed] at hn
    simp only [levels] at hk
    apply derives_one
    refine doc_framed_iff.mpr ⟨hk _ (by omega) (by omega), hn, indexKeys 0 items.length,
      hR.keys _ (nodup_indexKeys 0 _), ?_⟩
    exact derives_encodeItems hR items 0 hs (by omega) fun j hj hj' => hk j (by omega) (by omega)
  | document fields =>
    simp only [Throughout] at hs
    simp only [encodeValue, length_framed] at hn
    simp only [levels] at hk
    apply derives_one
    refine doc_framed_iff.mpr ⟨hk _ (by omega) (by omega), hn, fields.map Prod.fst,
      hR.keys _ hs.1.1, ?_⟩
    exact derives_encodeFields hR fields hs.1.2 hs.2 (by omega)
      fun j hj hj' => hk j (by omega) (by omega)
  | boolean b =>
    apply derives_one
    cases b
    · exact .inl rfl
    · exact .inr rfl
  | null => exact .noPieces
  | regularExpression pattern options =>
    exact derives_two ⟨pattern, hs.1, rfl⟩ ⟨options, hs.2, rfl⟩
  | javaScriptCode code => exact derives_one (word_encodeText hn)
  | javaScriptCodeWithScope code scope =>
    simp only [Throughout] at hs
    simp only [encodeValue, List.length_append, length_le32, length_framed] at hn
    simp only [levels] at hk
    refine derives_pieces_cons.mpr ⟨_, _, rfl, ⟨_, ?_, rfl⟩, derives_two
      (word_encodeText (by omega)) (doc_framed_iff.mpr ⟨hk _ (by omega) (by omega), by omega,
        scope.map Prod.fst, hR.keys _ hs.1.1, ?_⟩)⟩
    · simp only [List.length_append, length_framed]
      omega
    · exact derives_encodeFields hR scope hs.1.2 hs.2 (by omega)
        fun j hj hj' => hk j (by omega) (by omega)
  | int32 i => exact derives_one (length_le32 _)
  | int64 i => exact derives_one (length_le64 _)
  | timestamp time increment => exact derives_one (by simp [encodeValue, Word])
  | binary subtype bytes => exact derives_one (word_encodeBinary hn)
  | objectId bytes => exact derives_one (by simp [encodeValue, Word])
  | dateTime millis => exact derives_one (length_le64 _)
  | symbol s => exact derives_one (word_encodeText hn)
  | decimal128 bytes => exact derives_one (by simp [encodeValue, Word])
  | undefined => exact .noPieces
  | maxKey => exact .noPieces
  | minKey => exact .noPieces
  | dbPointer ns id =>
    simp only [encodeValue, List.length_append] at hn
    exact derives_two (word_encodeText (by omega)) (by simp [Word])

theorem derives_encodeItems {R : Rules} (hR : Admits R) (vs : List Bson) {k : ℕ} (i : ℕ)
    (hs : ThroughoutItems StorableKeys StorableLeaf vs) (hn : (encodeItems i vs).length < 2 ^ 31)
    (hk : ∀ j, k < j → j ≤ k + levelsItems vs → R.level j) :
    Derives R (.elements k (indexKeys i vs.length)) (encodeItems i vs) := by
  cases vs with
  | nil => exact .noElements
  | cons v vs =>
    simp only [ThroughoutItems] at hs
    simp only [levelsItems] at hk
    rw [length_encodeItems_cons] at hn
    rw [List.length_cons, indexKeys_succ]
    refine .element (layout_elementType v) (nulFree_repr i) ?_
      (hR.value _ _ (lengthExact_encodeValue v)) ?_
    · exact derives_encodeValue hR v hs.1 (by omega) fun j hj hj' => hk j hj (by omega)
    · exact derives_encodeItems hR vs (i + 1) hs.2 (by omega) fun j hj hj' => hk j hj (by omega)

theorem derives_encodeFields {R : Rules} (hR : Admits R) (fs : List (String × Bson)) {k : ℕ}
    (hkeys : ∀ key ∈ fs.map Prod.fst, NulFree key)
    (hs : ThroughoutFields StorableKeys StorableLeaf fs) (hn : (encodeFields fs).length < 2 ^ 31)
    (hk : ∀ j, k < j → j ≤ k + levelsFields fs → R.level j) :
    Derives R (.elements k (fs.map Prod.fst)) (encodeFields fs) := by
  match fs with
  | [] => exact .noElements
  | (key, v) :: fs =>
    simp only [ThroughoutFields] at hs
    simp only [levelsFields] at hk
    simp only [List.map_cons, List.mem_cons, forall_eq_or_imp] at hkeys
    rw [length_encodeFields_cons] at hn
    refine .element (layout_elementType v) hkeys.1 ?_
      (hR.value _ _ (lengthExact_encodeValue v)) ?_
    · exact derives_encodeValue hR v hs.1 (by omega) fun j hj hj' => hk j hj (by omega)
    · exact derives_encodeFields hR fs hkeys.2 hs.2 (by omega) fun j hj hj' => hk j hj (by omega)

end

theorem derives_one_iff {R : Rules} {k : ℕ} {p : Piece} {v : List UInt8} :
    Derives R (.pieces k [p]) v ↔ Word R k p v := by
  constructor
  · intro h
    obtain ⟨w, u, rfl, hw, hu⟩ := derives_pieces_cons.mp h
    obtain rfl := derives_pieces_nil.mp hu
    rwa [List.append_nil]
  · exact derives_one

/-- The first piece of a value, once its bytes are known. -/
theorem derives_cons_inv {R R' : Rules} {k k' : ℕ} {p : Piece} {ps : List Piece}
    {v w : List UInt8} (h : Derives R (.pieces k (p :: ps)) (v ++ w)) (hv : Word R' k' p v) :
    Word R k p v ∧ Derives R (.pieces k ps) w := by
  obtain ⟨v', w', he, hv', hw'⟩ := derives_pieces_cons.mp h
  obtain ⟨rfl, rfl⟩ := hv.append_inj hv' he
  exact ⟨hv', hw'⟩

mutual

/-- A grammar that derives a storable value allows the levels below it. -/
theorem level_of_derives_value {R : Rules} (v : Bson) {k : ℕ} (hs : Storable v)
    (hn : (encodeValue v).length < 2 ^ 31) (h : Derives R (.pieces k (pieces v)) (encodeValue v)) :
    ∀ j, k < j → j ≤ k + levels v → R.level j := by
  intro j hj hj'
  cases v with
  | array items =>
    simp only [Throughout] at hs
    simp only [encodeValue, length_framed] at hn
    simp only [levels] at hj'
    obtain ⟨hk, -, keys, -, hbody⟩ := doc_framed_iff.mp (derives_one_iff.mp h)
    rcases Nat.lt_or_eq_of_le hj with hlt | rfl
    · exact level_of_derives_items items 0 hs (by omega) hbody j hlt (by omega)
    · exact hk
  | document fields =>
    simp only [Throughout] at hs
    simp only [encodeValue, length_framed] at hn
    simp only [levels] at hj'
    obtain ⟨hk, -, keys, -, hbody⟩ := doc_framed_iff.mp (derives_one_iff.mp h)
    rcases Nat.lt_or_eq_of_le hj with hlt | rfl
    · exact level_of_derives_fields fields hs.1.2 hs.2 (by omega) hbody j hlt (by omega)
    · exact hk
  | javaScriptCodeWithScope code scope =>
    simp only [Throughout] at hs
    simp only [encodeValue, List.length_append, length_le32, length_framed] at hn
    simp only [levels] at hj'
    have hsize : Word R k .size
        (le32 ((encodeText code ++ framed (encodeFields scope)).length + 4)) := by
      refine ⟨_, ?_, rfl⟩
      simp only [List.length_append, length_framed]
      omega
    have htext : Word R k .text (encodeText code) := word_encodeText (by omega)
    obtain ⟨-, hrest⟩ := derives_cons_inv h hsize
    obtain ⟨-, hdoc⟩ := derives_cons_inv hrest htext
    obtain ⟨hk, -, keys, -, hbody⟩ := doc_framed_iff.mp (derives_one_iff.mp hdoc)
    rcases Nat.lt_or_eq_of_le hj with hlt | rfl
    · exact level_of_derives_fields scope hs.1.2 hs.2 (by omega) hbody j hlt (by omega)
    · exact hk
  | _ =>
    simp only [levels] at hj'
    omega

theorem level_of_derives_items {R : Rules} (vs : List Bson) {k : ℕ} {keys : List String} (i : ℕ)
    (hs : ThroughoutItems StorableKeys StorableLeaf vs) (hn : (encodeItems i vs).length < 2 ^ 31)
    (h : Derives R (.elements k keys) (encodeItems i vs)) :
    ∀ j, k < j → j ≤ k + levelsItems vs → R.level j := by
  intro j hj hj'
  cases vs with
  | nil =>
    simp only [levelsItems] at hj'
    omega
  | cons v vs =>
    simp only [ThroughoutItems] at hs
    simp only [levelsItems] at hj'
    rw [length_encodeItems_cons] at hn
    have hloose : Derives specRules (.pieces k (pieces v)) (encodeValue v) :=
      derives_encodeValue admits_specRules v hs.1 (by omega) fun _ _ _ => trivial
    obtain ⟨keys', -, hv, -, hrest⟩ :=
      h.element_inv (nulFree_repr i) (layout_elementType v) hloose
    rcases Nat.lt_or_ge (k + levels v) j with hlt | hge
    · exact level_of_derives_items vs (i + 1) hs.2 (by omega) hrest j hj (by omega)
    · exact level_of_derives_value v hs.1 (by omega) hv j hj hge

theorem level_of_derives_fields {R : Rules} (fs : List (String × Bson)) {k : ℕ}
    {keys : List String} (hkeys : ∀ key ∈ fs.map Prod.fst, NulFree key)
    (hs : ThroughoutFields StorableKeys StorableLeaf fs) (hn : (encodeFields fs).length < 2 ^ 31)
    (h : Derives R (.elements k keys) (encodeFields fs)) :
    ∀ j, k < j → j ≤ k + levelsFields fs → R.level j := by
  intro j hj hj'
  match fs with
  | [] =>
    simp only [levelsFields] at hj'
    omega
  | (key, v) :: fs =>
    simp only [ThroughoutFields] at hs
    simp only [levelsFields] at hj'
    simp only [List.map_cons, List.mem_cons, forall_eq_or_imp] at hkeys
    rw [length_encodeFields_cons] at hn
    have hloose : Derives specRules (.pieces k (pieces v)) (encodeValue v) :=
      derives_encodeValue admits_specRules v hs.1 (by omega) fun _ _ _ => trivial
    obtain ⟨keys', -, hv, -, hrest⟩ := h.element_inv hkeys.1 (layout_elementType v) hloose
    rcases Nat.lt_or_ge (k + levels v) j with hlt | hge
    · exact level_of_derives_fields fs hkeys.2 hs.2 (by omega) hrest j hj (by omega)
    · exact level_of_derives_value v hs.1 (by omega) hv j hj hge

end

/-- A storable document is derived exactly by the grammars that allow its levels. -/
theorem doc_documentBytes_iff {R : Rules} (hR : Admits R) {doc : Document} {k : ℕ}
    (hs : Storable (.document doc)) (hn : (documentBytes doc).length < 2 ^ 31) :
    Doc R k (documentBytes doc) ↔ ∀ j, k ≤ j → j < k + levels (.document doc) → R.level j := by
  simp only [Throughout] at hs
  simp only [documentBytes, length_framed] at hn
  simp only [documentBytes, levels, doc_framed_iff]
  constructor
  · intro h j hj hj'
    obtain ⟨hk, -, keys, -, hbody⟩ := h
    rcases Nat.lt_or_eq_of_le hj with hlt | rfl
    · exact level_of_derives_fields doc hs.1.2 hs.2 (by omega) hbody j hlt (by omega)
    · exact hk
  · intro h
    refine ⟨h k (Nat.le_refl k) (by omega), hn, doc.map Prod.fst, hR.keys _ hs.1.1, ?_⟩
    exact derives_encodeFields hR doc hs.1.2 hs.2 (by omega)
      fun j hj hj' => h j (by omega) (by omega)

/-- The empty document inside `n` documents. -/
def nestedDocument : ℕ → Document
  | 0 => []
  | n + 1 => [("a", .document (nestedDocument n))]

theorem levels_nestedDocument (n : ℕ) : levels (.document (nestedDocument n)) = n + 1 := by
  induction n with
  | zero => rfl
  | succ n ih =>
    rw [levels, nestedDocument, levelsFields, ih, levelsFields]
    omega

theorem storable_nestedDocument (n : ℕ) : Storable (.document (nestedDocument n)) := by
  have hkey : StorableKeys ["a"] := ⟨by decide, by decide⟩
  induction n with
  | zero => exact ⟨⟨List.nodup_nil, by simp [nestedDocument]⟩, trivial⟩
  | succ n ih => exact ⟨hkey, ih, trivial⟩

theorem length_nestedDocument (n : ℕ) : (documentBytes (nestedDocument n)).length = 8 * n + 5 := by
  induction n with
  | zero => rfl
  | succ n ih =>
    have ha : (utf8 "a").length = 1 := by decide
    have hinner : (encodeValue (.document (nestedDocument n))).length = 8 * n + 5 := ih
    have hnil : (encodeFields []).length = 0 := rfl
    rw [documentBytes, length_framed, nestedDocument, length_encodeFields_cons, ha, hinner, hnil]
    omega

end VgiBson.BsonEncoding
