import VgiBson.MachineBytes

/-! # The BSON grammar and its variants

One grammar with parameters: which nesting levels are allowed, which key lists a document may have,
and an extra condition on each value. Sentences are byte strings; a derivation never looks at the
bytes around them. -/

namespace VgiBson.BsonGrammar

open MachineBytes

/-- The pieces that values are made of. -/
inductive Piece where
  | raw (n : ℕ)
  | boolean
  | text
  | cstring
  | binary
  | size
  | document
  deriving DecidableEq, Repr

/-- The pieces of a value of the given element type. -/
def layout : UInt8 → Option (List Piece)
  | 0x01 => some [.raw 8]                         -- double
  | 0x02 => some [.text]                          -- string
  | 0x03 => some [.document]                      -- embedded document
  | 0x04 => some [.document]                      -- array
  | 0x05 => some [.binary]                        -- binary
  | 0x06 => some []                               -- undefined
  | 0x07 => some [.raw 12]                        -- object id
  | 0x08 => some [.boolean]                       -- boolean
  | 0x09 => some [.raw 8]                         -- UTC datetime
  | 0x0A => some []                               -- null
  | 0x0B => some [.cstring, .cstring]             -- regular expression
  | 0x0C => some [.text, .raw 12]                 -- DBPointer
  | 0x0D => some [.text]                          -- code
  | 0x0E => some [.text]                          -- symbol
  | 0x0F => some [.size, .text, .document]        -- code with scope
  | 0x10 => some [.raw 4]                         -- int32
  | 0x11 => some [.raw 8]                         -- timestamp
  | 0x12 => some [.raw 8]                         -- int64
  | 0x13 => some [.raw 16]                        -- decimal128
  | 0xFF => some []                               -- min key
  | 0x7F => some []                               -- max key
  | _ => none

/-- The grammar's parameters. -/
structure Rules where
  level : ℕ → Prop
  keys : List String → Prop
  value : UInt8 → List UInt8 → Prop

/-- The nonterminals, each at a nesting level. -/
inductive Phrase where
  | document (k : ℕ)
  | elements (k : ℕ) (keys : List String)
  | pieces (k : ℕ) (ps : List Piece)

/-- A key or other cstring: text without a NUL. -/
def NulFree (s : String) : Prop := (0 : UInt8) ∉ utf8 s

instance : DecidablePred NulFree := fun s => inferInstanceAs (Decidable ((0 : UInt8) ∉ utf8 s))

inductive Derives (R : Rules) : Phrase → List UInt8 → Prop
  | document {k keys body} (level : R.level k) (elements : Derives R (.elements k keys) body)
      (distinct : R.keys keys) (small : body.length + 5 < 2 ^ 31) :
      Derives R (.document k) (le32 (body.length + 5) ++ body ++ [0])
  | noElements {k} : Derives R (.elements k []) []
  | element {k ty ps key v keys body} (known : layout ty = some ps) (nulFree : NulFree key)
      (value : Derives R (.pieces k ps) v) (extra : R.value ty v)
      (rest : Derives R (.elements k keys) body) :
      Derives R (.elements k (key :: keys)) (ty :: (utf8 key ++ 0 :: (v ++ body)))
  | noPieces {k} : Derives R (.pieces k []) []
  | raw {k n v ps w} (length : v.length = n) (rest : Derives R (.pieces k ps) w) :
      Derives R (.pieces k (.raw n :: ps)) (v ++ w)
  | boolean {k b ps w} (bit : b = 0 ∨ b = 1) (rest : Derives R (.pieces k ps) w) :
      Derives R (.pieces k (.boolean :: ps)) ([b] ++ w)
  | text {k s ps w} (small : (utf8 s).length + 1 < 2 ^ 31) (rest : Derives R (.pieces k ps) w) :
      Derives R (.pieces k (.text :: ps)) ((le32 ((utf8 s).length + 1) ++ utf8 s ++ [0]) ++ w)
  | cstring {k s ps w} (nulFree : NulFree s) (rest : Derives R (.pieces k ps) w) :
      Derives R (.pieces k (.cstring :: ps)) ((utf8 s ++ [0]) ++ w)
  | binary {k st v ps w} (small : v.length < 2 ^ 31) (rest : Derives R (.pieces k ps) w) :
      Derives R (.pieces k (.binary :: ps)) ((le32 v.length ++ [st] ++ v) ++ w)
  | size {k n ps w} (small : n < 2 ^ 31) (rest : Derives R (.pieces k ps) w) :
      Derives R (.pieces k (.size :: ps)) (le32 n ++ w)
  | nested {k d ps w} (nested : Derives R (.document (k + 1)) d)
      (rest : Derives R (.pieces k ps) w) : Derives R (.pieces k (.document :: ps)) (d ++ w)

/-- The documents of the grammar at nesting level `k`. -/
abbrev Doc (R : Rules) (k : ℕ) (b : List UInt8) : Prop := Derives R (.document k) b

/-- A document is as long as its own length prefix says. -/
theorem Doc.prefix_length {R : Rules} {k : ℕ} {b : List UInt8} (h : Doc R k b) :
    5 ≤ b.length ∧ b.length < 2 ^ 31 ∧ ∃ r, b = le32 b.length ++ r := by
  cases h with
  | @document k keys body level elements distinct small =>
    have hl : (le32 (body.length + 5) ++ body ++ [0]).length = body.length + 5 := by
      simp only [List.length_append, length_le32, List.length_singleton]
      omega
    refine ⟨by omega, by omega, body ++ [0], ?_⟩
    rw [hl, List.append_assoc]

/-- Rules that allow more derive more. -/
theorem Derives.mono {R R' : Rules} {ph : Phrase} {b : List UInt8} (h : Derives R ph b)
    (level : ∀ k, R.level k → R'.level k) (keys : ∀ ks, R.keys ks → R'.keys ks)
    (value : ∀ ty v, R.value ty v → R'.value ty v) : Derives R' ph b := by
  induction h with
  | document hk _ hkeys hs ih => exact .document (level _ hk) ih (keys _ hkeys) hs
  | noElements => exact .noElements
  | element hty hkey _ hv _ ihv ihr => exact .element hty hkey ihv (value _ _ hv) ihr
  | noPieces => exact .noPieces
  | raw hl _ ih => exact .raw hl ih
  | boolean hb _ ih => exact .boolean hb ih
  | text hs _ ih => exact .text hs ih
  | cstring hs _ ih => exact .cstring hs ih
  | binary hs _ ih => exact .binary hs ih
  | size hs _ ih => exact .size hs ih
  | nested _ _ ihd ihr => exact .nested ihd ihr

/-- The words of a single piece. -/
def Word (R : Rules) (k : ℕ) : Piece → List UInt8 → Prop
  | .raw n, v => v.length = n
  | .boolean, v => v = [0] ∨ v = [1]
  | .text, v => ∃ s, (utf8 s).length + 1 < 2 ^ 31 ∧ v = le32 ((utf8 s).length + 1) ++ utf8 s ++ [0]
  | .cstring, v => ∃ s, NulFree s ∧ v = utf8 s ++ [0]
  | .binary, v => ∃ st w, w.length < 2 ^ 31 ∧ v = le32 w.length ++ [st] ++ w
  | .size, v => ∃ n, n < 2 ^ 31 ∧ v = le32 n
  | .document, v => Doc R (k + 1) v

theorem derives_pieces_nil {R : Rules} {k : ℕ} {u : List UInt8} :
    Derives R (.pieces k []) u ↔ u = [] := by
  constructor
  · intro h
    cases h
    rfl
  · intro h
    obtain rfl := h
    exact .noPieces

/-- A list of pieces is a word of the first piece and then the others. -/
theorem derives_pieces_cons {R : Rules} {k : ℕ} {p : Piece} {ps : List Piece} {u : List UInt8} :
    Derives R (.pieces k (p :: ps)) u ↔
      ∃ v w, u = v ++ w ∧ Word R k p v ∧ Derives R (.pieces k ps) w := by
  constructor
  · intro h
    cases h with
    | raw hl hr => exact ⟨_, _, rfl, hl, hr⟩
    | boolean hb hr => exact ⟨_, _, rfl, by simpa [Word] using hb, hr⟩
    | text hs hr => exact ⟨_, _, rfl, ⟨_, hs, rfl⟩, hr⟩
    | cstring hs hr => exact ⟨_, _, rfl, ⟨_, hs, rfl⟩, hr⟩
    | binary hs hr => exact ⟨_, _, rfl, ⟨_, _, hs, rfl⟩, hr⟩
    | size hs hr => exact ⟨_, _, rfl, ⟨_, hs, rfl⟩, hr⟩
    | nested hd hr => exact ⟨_, _, rfl, hd, hr⟩
  · intro h
    obtain ⟨v, w, rfl, hv, hr⟩ := h
    cases p with
    | raw n => exact .raw hv hr
    | boolean =>
      rcases hv with rfl | rfl
      · exact .boolean (.inl rfl) hr
      · exact .boolean (.inr rfl) hr
    | text =>
      obtain ⟨s, hs, rfl⟩ := hv
      exact .text hs hr
    | cstring =>
      obtain ⟨s, hs, rfl⟩ := hv
      exact .cstring hs hr
    | binary =>
      obtain ⟨st, w, hs, rfl⟩ := hv
      exact .binary hs hr
    | size =>
      obtain ⟨n, hn, rfl⟩ := hv
      exact .size hn hr
    | document => exact .nested hv hr

theorem derives_elements_nil {R : Rules} {k : ℕ} {b : List UInt8} :
    Derives R (.elements k []) b ↔ b = [] := by
  constructor
  · intro h
    cases h
    rfl
  · intro h
    obtain rfl := h
    exact .noElements

theorem derives_elements_cons {R : Rules} {k : ℕ} {key : String} {keys : List String}
    {b : List UInt8} : Derives R (.elements k (key :: keys)) b ↔ ∃ ty ps v body,
      layout ty = some ps ∧ NulFree key ∧ Derives R (.pieces k ps) v ∧ R.value ty v ∧
      Derives R (.elements k keys) body ∧ b = ty :: (utf8 key ++ 0 :: (v ++ body)) := by
  constructor
  · intro h
    cases h with
    | element hty hkey hv hx hr => exact ⟨_, _, _, _, hty, hkey, hv, hx, hr, rfl⟩
  · intro h
    obtain ⟨ty, ps, v, body, hty, hkey, hv, hx, hr, rfl⟩ := h
    exact .element hty hkey hv hx hr

/-- The type byte that ends a document is not an element type. -/
theorem layout_zero : layout 0 = none := rfl

/-- A document inside a longer byte string ends where its length prefix says. -/
theorem Doc.append_inj {R R' : Rules} {k k' : ℕ} {d d' r r' : List UInt8} (h : Doc R k d)
    (h' : Doc R' k' d') (he : d ++ r = d' ++ r') : d = d' ∧ r = r' := by
  obtain ⟨-, hd, u, hu⟩ := h.prefix_length
  obtain ⟨-, hd', u', hu'⟩ := h'.prefix_length
  have hp : le32 d.length = le32 d'.length := by
    rw [hu, hu', List.append_assoc, List.append_assoc] at he
    exact (List.append_inj he (by simp)).1
  exact List.append_inj he (le32_inj (by omega) (by omega) hp)

theorem NulFree.takeWhile {s : String} (h : NulFree s) (r : List UInt8) :
    (utf8 s ++ 0 :: r).takeWhile (· != 0) = utf8 s := by
  rw [List.takeWhile_append_of_pos]
  · simp
  · intro b hb
    have hz : b ≠ 0 := fun hz => h (hz ▸ hb)
    simpa using hz

/-- A text without NUL ends at the first NUL. -/
theorem NulFree.append_inj {s s' : String} (h : NulFree s) (h' : NulFree s') {r r' : List UInt8}
    (he : utf8 s ++ 0 :: r = utf8 s' ++ 0 :: r') : s = s' ∧ r = r' := by
  have hu : utf8 s = utf8 s' := by rw [← h.takeWhile r, ← h'.takeWhile r', he]
  obtain ⟨-, hr⟩ := List.append_inj he (congrArg List.length hu)
  exact ⟨utf8_injective hu, (List.cons.inj hr).2⟩

/-- Equal byte strings that begin with a length have the same length word. -/
theorem le32_eq_of_append {n n' : ℕ} {w w' : List UInt8} (hn : n < 2 ^ 31) (hn' : n' < 2 ^ 31)
    (he : le32 n ++ w = le32 n' ++ w') : n = n' ∧ w = w' := by
  obtain ⟨hp, hw⟩ := List.append_inj he (by simp)
  exact ⟨le32_inj (by omega) (by omega) hp, hw⟩

/-- A piece inside a longer byte string ends where it says itself. -/
theorem Word.append_inj {R R' : Rules} {k k' : ℕ} {p : Piece} {v v' r r' : List UInt8}
    (h : Word R k p v) (h' : Word R' k' p v') (he : v ++ r = v' ++ r') : v = v' ∧ r = r' := by
  cases p with
  | raw n => exact List.append_inj he (h.trans h'.symm)
  | boolean =>
    have hl : v.length = v'.length := by
      rcases h with rfl | rfl <;> rcases h' with rfl | rfl <;> rfl
    exact List.append_inj he hl
  | text =>
    obtain ⟨s, hs, rfl⟩ := h
    obtain ⟨s', hs', rfl⟩ := h'
    apply List.append_inj he
    simp only [List.append_assoc] at he
    obtain ⟨hl, -⟩ := le32_eq_of_append hs hs' he
    simp only [List.length_append, length_le32, List.length_singleton]
    omega
  | cstring =>
    obtain ⟨s, hs, rfl⟩ := h
    obtain ⟨s', hs', rfl⟩ := h'
    simp only [List.append_assoc, List.singleton_append] at he
    obtain ⟨rfl, rfl⟩ := hs.append_inj hs' he
    exact ⟨rfl, rfl⟩
  | binary =>
    obtain ⟨st, w, hw, rfl⟩ := h
    obtain ⟨st', w', hw', rfl⟩ := h'
    apply List.append_inj he
    simp only [List.append_assoc] at he
    obtain ⟨hl, -⟩ := le32_eq_of_append hw hw' he
    simp only [List.length_append, length_le32, List.length_singleton]
    omega
  | size =>
    obtain ⟨n, -, rfl⟩ := h
    obtain ⟨n', -, rfl⟩ := h'
    exact List.append_inj he (by simp)
  | document => exact Doc.append_inj h h' he

/-- The bytes of a value are determined by its type and where it begins. -/
theorem Derives.pieces_append_inj {R R' : Rules} {k k' : ℕ} {ps : List Piece}
    {v v' r r' : List UInt8} (h : Derives R (.pieces k ps) v) (h' : Derives R' (.pieces k' ps) v')
    (he : v ++ r = v' ++ r') : v = v' ∧ r = r' := by
  induction ps generalizing v v' with
  | nil =>
    rw [derives_pieces_nil] at h h'
    subst h h'
    exact ⟨rfl, he⟩
  | cons p ps ih =>
    obtain ⟨w, u, rfl, hw, hu⟩ := derives_pieces_cons.mp h
    obtain ⟨w', u', rfl, hw', hu'⟩ := derives_pieces_cons.mp h'
    rw [List.append_assoc, List.append_assoc] at he
    obtain ⟨rfl, hrest⟩ := hw.append_inj hw' he
    obtain ⟨rfl, rfl⟩ := ih hu hu' hrest
    exact ⟨rfl, rfl⟩

/-- The word of a document body. -/
def framed (body : List UInt8) : List UInt8 := le32 (body.length + 5) ++ body ++ [0]

@[simp] theorem length_framed (body : List UInt8) : (framed body).length = body.length + 5 := by
  simp only [framed, List.length_append, length_le32, List.length_singleton]
  omega

/-- A document is a frame around its elements. -/
theorem doc_framed_iff {R : Rules} {k : ℕ} {body : List UInt8} : Doc R k (framed body) ↔
    R.level k ∧ body.length + 5 < 2 ^ 31 ∧
      ∃ keys, R.keys keys ∧ Derives R (.elements k keys) body := by
  constructor
  · intro h
    generalize hb : framed body = b at h
    cases h with
    | @document _ keys body' hk hbody hkeys hn =>
      have hl := congrArg List.length hb
      simp only [length_framed, List.length_append, length_le32, List.length_singleton] at hl
      rw [framed, List.append_assoc, List.append_assoc] at hb
      obtain ⟨-, hb⟩ := List.append_inj hb (by simp)
      obtain ⟨rfl, -⟩ := List.append_inj hb (by omega)
      exact ⟨hk, hn, keys, hkeys, hbody⟩
  · intro h
    obtain ⟨hk, hn, keys, hkeys, hbody⟩ := h
    exact .document hk hbody hkeys hn

/-- The first element of an element list, once its key and value are known. -/
theorem Derives.element_inv {R R' : Rules} {k k' : ℕ} {keys : List String} {ty : UInt8}
    {key : String} {ps : List Piece} {v body : List UInt8}
    (h : Derives R (.elements k keys) (ty :: (utf8 key ++ 0 :: (v ++ body)))) (hkey : NulFree key)
    (hty : layout ty = some ps) (hv : Derives R' (.pieces k' ps) v) :
    ∃ keys', keys = key :: keys' ∧ Derives R (.pieces k ps) v ∧ R.value ty v ∧
      Derives R (.elements k keys') body := by
  cases keys with
  | nil =>
    rw [derives_elements_nil] at h
    cases h
  | cons key' keys' =>
    obtain ⟨ty', ps', v', body', hty', hkey', hv', hx, hbody, he⟩ := derives_elements_cons.mp h
    obtain ⟨rfl, hkeyed⟩ := List.cons.inj he
    obtain rfl : ps' = ps := Option.some.inj (hty'.symm.trans hty)
    obtain ⟨rfl, hvalued⟩ := hkey.append_inj hkey' hkeyed
    obtain ⟨rfl, rfl⟩ := hv.pieces_append_inj hv' hvalued
    exact ⟨keys', rfl, hv', hx, hbody⟩

/-- The lengths of a value that its pieces do not compare: the total of a code with scope is the
size of the value, and a binary of the old subtype repeats its own data length. -/
def LengthExact (ty : UInt8) (v : List UInt8) : Prop :=
  (ty = 0x0F → le32 v.length <+: v) ∧
    (ty = 0x05 → v[4]? = some 0x02 → 9 ≤ v.length ∧ le32 (v.length - 9) <+: v.drop 5)

/-- The grammar of the format itself: any nesting, any keys, every length exact. -/
def specRules : Rules where
  level _ := True
  keys _ := True
  value := LengthExact

end VgiBson.BsonGrammar
