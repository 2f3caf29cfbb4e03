import VgiBson.CrateAssumptions
import VgiBson.DecimalNumerals
import VgiBson.FieldProjection
import VgiBson.PathWalks

/-! # Dotted paths and the value tree

A position of the value tree is reached by keys of documents and indices of arrays. The text of a
path spells such steps, and the two walks along a path follow what its segments spell. -/

namespace VgiBson.DottedPaths

open MachineBytes CursorWalks StructuralValidator BsonValues DocumentDecoding CrateAssumptions
  FieldProjection DecimalNumerals PathWalks

variable {T : Target} {crates : Crates}

/-- One step down the value tree. -/
inductive PathStep where
  | key (name : String)
  | index (i : ℕ)

namespace PathStep

/-- The node one step further down: a key leads on from a document, an index from an array. -/
def child : Bson → PathStep → Option Bson
  | .document fields, .key name => (fields.find? (·.1 = name)).map Prod.snd
  | .array items, .index i => items[i]?
  | _, _ => none

def text : PathStep → String
  | .key name => name
  | .index i => toString i

/-- The step can be written in a path: no dot in a key, and an index that fits the target. -/
def Addressable (T : Target) : PathStep → Prop
  | .key name => '.' ∉ name.toList
  | .index i => i ≤ T.usizeMax

/-- The segment of a path spells the step. -/
def SpelledBy (T : Target) : PathStep → String → Prop
  | .key name, seg => name = seg
  | .index i, seg => parseUsize T seg = some i

end PathStep

/-- Splitting undoes joining. -/
theorem segments_intercalate {texts : List String} (hne : texts ≠ [])
    (hdot : ∀ t ∈ texts, '.' ∉ t.toList) : segments (".".intercalate texts) = texts := by
  have hlists : ∀ l ∈ texts.map String.toList, '.' ∉ l := by
    intro l hl
    obtain ⟨t, ht, rfl⟩ := List.mem_map.mp hl
    exact hdot t ht
  have hsep : ".".toList = ['.'] := rfl
  rw [segments, String.toList_intercalate, hsep,
    List.splitOn_intercalate '.' hlists (by simpa using hne), List.map_map]
  have hid : String.ofList ∘ String.toList = id := funext fun s => String.ofList_toList
  rw [hid, List.map_id]

/-- A numeral without sign is read as its value when that fits. -/
theorem parseUsize_of_digits {seg : String} {digits : List Char} (hseg : seg.toList = digits)
    (hdigits : Digits digits) (hne : digits ≠ []) : parseUsize T seg =
      if digitsValue digits ≤ T.usizeMax then some (digitsValue digits) else none := by
  have hall : digits.all Char.isDigit = true := List.all_eq_true.mpr hdigits
  unfold parseUsize
  extract_lets ds n
  have hds : ds = digits := by
    simp only [ds, hseg]
    split
    · next ds => exact absurd (hdigits '+' List.mem_cons_self) (by decide)
    · rfl
  rw [hds, if_neg (by simp [hne, hall])]
  simp only [n, hds]
  rfl

/-- Parsing a printed index gives it back. -/
theorem parseUsize_toString {i : ℕ} (h : i ≤ T.usizeMax) : parseUsize T (toString i) = some i := by
  have htext : (toString i).toList = Nat.toDigits 10 i := by
    rw [Nat.toString_eq_ofList_toDigits, String.toList_ofList]
  rw [parseUsize_of_digits htext (digits_toDigits i) Nat.toDigits_ne_nil, digitsValue_toDigits,
    if_pos h]

theorem text_spells {s : PathStep} (h : s.Addressable T) : s.SpelledBy T s.text := by
  cases s with
  | key name => rfl
  | index i => exact parseUsize_toString h

theorem dot_notMem_text {s : PathStep} (h : s.Addressable T) : '.' ∉ s.text.toList := by
  cases s with
  | key name => exact h
  | index i =>
    intro hdot
    rw [PathStep.text, Nat.toString_eq_ofList_toDigits, String.toList_ofList] at hdot
    exact absurd (digits_toDigits i '.' hdot) (by decide)

/-- One round of the loop of `navigate`. -/
def segmentChild (crates : Crates) (T : Target) : Bson → String → Option Bson
  | .document d, seg => crates.get d seg
  | .array a, seg => do
    let idx ← parseUsize T seg
    a[idx]?
  | _, _ => none

theorem navigate_eq_follow (root : Bson) (path : String) :
    navigate crates T root path = follow (segmentChild crates T) root (segments path) := by
  show List.foldlM _ root (segments path) = List.foldlM _ root (segments path)
  congr 1
  funext cur seg
  cases cur <;> rfl

/-- The two copies of the walk are the same function. -/
theorem navigateType_eq_navigate (root : Bson) (path : String) :
    navigateType crates T root path = navigate crates T root path := rfl

/-- A step leads where a segment that spells it leads. -/
theorem segmentChild_of_child (hget : GetFinds crates) {v v' : Bson} {s : PathStep} {seg : String}
    (hs : s.SpelledBy T seg) (h : s.child v = some v') :
    segmentChild crates T v seg = some v' := by
  cases v with
  | document fields =>
    cases s with
    | key name =>
      obtain rfl : name = seg := hs
      exact (hget fields name).trans h
    | index i => cases h
  | array items =>
    cases s with
    | key name => cases h
    | index i =>
      have hparse : parseUsize T seg = some i := hs
      rw [segmentChild, hparse]
      exact h
  | _ => cases h

theorem child_of_segmentChild (hget : GetFinds crates) {v v' : Bson} {seg : String}
    (h : segmentChild crates T v seg = some v') :
    ∃ s : PathStep, s.SpelledBy T seg ∧ s.child v = some v' := by
  cases v with
  | document fields => exact ⟨.key seg, rfl, (hget fields seg).symm.trans h⟩
  | array items =>
    obtain ⟨i, hi, h⟩ := Option.bind_eq_some_iff.mp h
    exact ⟨.index i, hi, h⟩
  | _ => cases h

/-- The walk finds exactly what steps spelled by the segments lead to. -/
theorem navigate_eq_some_iff (hget : GetFinds crates) {root x : Bson} {path : String} :
    navigate crates T root path = some x ↔
      ∃ steps, List.Forall₂ (PathStep.SpelledBy T) steps (segments path) ∧
        follow PathStep.child root steps = some x := by
  rw [navigate_eq_follow]
  constructor
  · intro h
    exact follow_relabel (fun _ _ _ hc => child_of_segmentChild hget hc) h
  · intro h
    obtain ⟨steps, hsteps, h⟩ := h
    obtain ⟨y, hy, rfl⟩ := follow_simulates (R := Eq)
      (fun a b s seg a' hab hs hc => by
        subst hab
        exact ⟨a', segmentChild_of_child hget hs hc, rfl⟩) hsteps rfl h
    exact hy

/-- Joined texts of steps lead where the steps lead. -/
theorem navigate_intercalate (hget : GetFinds crates) {root x : Bson} {steps : List PathStep}
    (hne : steps ≠ []) (haddr : ∀ s ∈ steps, s.Addressable T)
    (h : follow PathStep.child root steps = some x) :
    navigate crates T root (".".intercalate (steps.map PathStep.text)) = some x := by
  have hdot : ∀ t ∈ steps.map PathStep.text, '.' ∉ t.toList := by
    intro t ht
    obtain ⟨s, hs, rfl⟩ := List.mem_map.mp ht
    exact dot_notMem_text (haddr s hs)
  rw [navigate_eq_some_iff hget, segments_intercalate (by simpa using hne) hdot]
  refine ⟨steps, ?_, h⟩
  rw [List.forall₂_map_right_iff, List.forall₂_same]
  intro s hs
  exact text_spells (haddr s hs)

def Container : Bson → Prop
  | .document _ => True
  | .array _ => True
  | _ => False

theorem segmentChild_of_not_container {v : Bson} (h : ¬ Container v) (seg : String) :
    segmentChild crates T v seg = none := by
  cases v with
  | document fields => exact absurd trivial h
  | array items => exact absurd trivial h
  | _ => rfl

theorem segmentChild_past_end {items : List Bson} {seg : String} {i : ℕ}
    (hi : parseUsize T seg = some i) (h : items.length ≤ i) :
    segmentChild crates T (.array items) seg = none := by
  rw [segmentChild, hi]
  exact List.getElem?_eq_none h

/-- A path with a segment that leads nowhere leads nowhere. -/
theorem navigate_dead_end (hget : GetFinds crates) {root y : Bson} {path seg : String}
    {before after : List String} {steps : List PathStep}
    (hpath : segments path = before ++ seg :: after)
    (hsteps : List.Forall₂ (PathStep.SpelledBy T) steps before)
    (hy : follow PathStep.child root steps = some y)
    (hdead : ¬ Container y ∨ ∃ items i, y = .array items ∧ parseUsize T seg = some i ∧
      items.length ≤ i) : navigate crates T root path = none := by
  have hnone : segmentChild crates T y seg = none := by
    rcases hdead with h | ⟨items, i, rfl, hi, hlen⟩
    · exact segmentChild_of_not_container h seg
    · exact segmentChild_past_end hi hlen
  have hbefore : follow (segmentChild crates T) root before = some y := by
    obtain ⟨y', hy', rfl⟩ := follow_simulates (R := Eq)
      (fun a b s t a' hab hs hc => by
        subst hab
        exact ⟨a', segmentChild_of_child hget hs hc, rfl⟩) hsteps rfl hy
    exact hy'
  rw [navigate_eq_follow, hpath, follow_append, hbefore, Option.bind_some, follow_cons, hnone]
  rfl

theorem typeOf_of_decode {b : Bytes T} {doc : Document} (h : decodeDocument crates b = .ok doc)
    (path : String) : typeOf crates b (some path) =
      .ok ((navigate crates T (.document doc) path).map typeName) := by
  rw [typeOf, h]
  rfl

theorem field_of_decode {b : Bytes T} {doc : Document} (h : decodeDocument crates b = .ok doc)
    (path : String) (mode : Coerce) : field crates b path mode =
      match navigate crates T (.document doc) path with
      | some leaf => some <$> coerce crates leaf mode
      | none => .ok none := by
  rw [field, h]
  rfl

/-- A type is reported exactly for the leaf that is rendered. -/
theorem typeOf_eq_some {b : Bytes T} {path name : String} (mode : Coerce)
    (h : typeOf crates b (some path) = .ok (some name)) :
    ∃ doc leaf, decodeDocument crates b = .ok doc ∧
      navigate crates T (.document doc) path = some leaf ∧ name = typeName leaf ∧
      field crates b path mode = some <$> coerce crates leaf mode := by
  cases hdoc : decodeDocument crates b with
  | error e =>
    rw [typeOf, hdoc] at h
    cases h
  | ok doc =>
    rw [typeOf_of_decode hdoc] at h
    obtain ⟨leaf, hleaf, hname⟩ := Option.map_eq_some_iff.mp (Except.ok.inj h)
    refine ⟨doc, leaf, rfl, hleaf, hname.symm, ?_⟩
    rw [field_of_decode hdoc, hleaf]

theorem map_some_ne_none {ε α : Type} (x : Outcome ε α) : some <$> x ≠ .ok none := by
  cases x <;> nofun

/-- Both readers find no value for the same paths. -/
theorem field_eq_none_iff (b : Bytes T) (path : String) (mode : Coerce) :
    field crates b path mode = .ok none ↔ typeOf crates b (some path) = .ok none := by
  cases hdoc : decodeDocument crates b with
  | error e =>
    have hfield : field crates b path mode = .error e := by
      rw [field, hdoc]
      rfl
    have htype : typeOf crates b (some path) = .error e := by
      rw [typeOf, hdoc]
      rfl
    simp [hfield, htype]
  | ok doc =>
    rw [field_of_decode hdoc, typeOf_of_decode hdoc]
    cases navigate crates T (.document doc) path with
    | none => simp
    | some leaf => simp [map_some_ne_none]

/-- Dotted paths address every position of the value tree, and both readers find the same. -/
theorem navigate_addresses (crates : Crates) (hget : GetFinds crates) (T : Target) :
    (∀ (root x : Bson) (steps : List PathStep), steps ≠ [] →
      (∀ s ∈ steps, s.Addressable T) → follow PathStep.child root steps = some x →
      navigate crates T root (".".intercalate (steps.map PathStep.text)) = some x) ∧
    (∀ (root x : Bson) (path : String), navigate crates T root path = some x →
      ∃ steps, List.Forall₂ (PathStep.SpelledBy T) steps (segments path) ∧
        follow PathStep.child root steps = some x) ∧
    (∀ (root y : Bson) (path seg : String) (before after : List String) (steps : List PathStep),
      segments path = before ++ seg :: after →
      List.Forall₂ (PathStep.SpelledBy T) steps before →
      follow PathStep.child root steps = some y →
      (¬ Container y ∨ ∃ items i, y = .array items ∧ parseUsize T seg = some i ∧
        items.length ≤ i) → navigate crates T root path = none) ∧
    (∀ (root : Bson) (path : String),
      navigateType crates T root path = navigate crates T root path) ∧
    ∀ (b : Bytes T) (path : String) (mode : Coerce),
      (field crates b path mode = .ok none ↔ typeOf crates b (some path) = .ok none) ∧
      ∀ name, typeOf crates b (some path) = .ok (some name) →
        ∃ doc leaf, decodeDocument crates b = .ok doc ∧
          navigate crates T (.document doc) path = some leaf ∧ name = typeName leaf ∧
          field crates b path mode = some <$> coerce crates leaf mode := by
  refine ⟨?_, ?_, ?_, navigateType_eq_navigate, ?_⟩
  · intro root x steps hne haddr h
    exact navigate_intercalate hget hne haddr h
  · intro root x path h
    exact (navigate_eq_some_iff hget).mp h
  · intro root y path seg before after steps hpath hsteps hy hdead
    exact navigate_dead_end hget hpath hsteps hy hdead
  · intro b path mode
    exact ⟨field_eq_none_iff b path mode, fun name h => typeOf_eq_some mode h⟩

theorem navigate_addresses_nested : navigate formatCrates .bits64
    (.document [("a", .array [.null, .document [("7", .boolean true)]])]) "a.1.7" =
      some (.boolean true) :=
  (navigate_addresses formatCrates getFinds_formatCrates .bits64).1 _ _
    [.key "a", .index 1, .key "7"] (by simp) (by simp [PathStep.Addressable, Target.usizeMax]) rfl

end VgiBson.DottedPaths
