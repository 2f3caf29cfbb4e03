import VgiBson.CursorWalks

/-! # The language a walk reads

A walk over a buffer reads a language when its successful runs are exactly the occurrences of that
language's words at the starting position. The language cannot mention the buffer, so such a walk
is indifferent to every byte outside the word it accepts. -/

namespace VgiBson.CursorLanguages

open MachineBytes CursorWalks

variable {ε α β : Type} {T : Target} {buf : Bytes T}

/-- The bytes `v` stand in the buffer at position `p`. -/
def At (buf : Bytes T) (p : ℕ) (v : List UInt8) : Prop := v <+: buf.data.drop p

theorem At.nil (p : ℕ) : At buf p [] := List.nil_prefix

theorem at_append {p : ℕ} {v w : List UInt8} :
    At buf p (v ++ w) ↔ At buf p v ∧ At buf (p + v.length) w := by
  simp only [At, ← List.drop_drop]
  constructor
  · intro h
    obtain ⟨r, hr⟩ := h
    refine ⟨⟨w ++ r, by rw [← hr, List.append_assoc]⟩, ⟨r, ?_⟩⟩
    rw [← hr, List.append_assoc, List.drop_left]
  · intro h
    obtain ⟨⟨r, hr⟩, ⟨t, ht⟩⟩ := h
    refine ⟨t, ?_⟩
    rw [← hr, List.drop_left] at ht
    rw [List.append_assoc, ht, hr]

theorem At.end_le {p : ℕ} {v : List UInt8} (h : At buf p v) (hp : p ≤ buf.len) :
    p + v.length ≤ buf.len := by
  have hl := h.length_le
  rw [List.length_drop] at hl
  simp only [Bytes.len] at *
  omega

/-- Enough remaining bytes are some bytes standing there. -/
theorem exists_at_of_le {p n : ℕ} (h : p + n ≤ buf.len) : ∃ v, v.length = n ∧ At buf p v := by
  refine ⟨(buf.data.drop p).take n, ?_, List.take_prefix _ _⟩
  simp only [Bytes.len] at h
  simp only [List.length_take, List.length_drop]
  omega

theorem At.eq_of_length {p : ℕ} {v w : List UInt8} (h : At buf p v) (h' : At buf p w)
    (hl : v.length = w.length) : v = w :=
  (List.prefix_of_prefix_length_le h h' hl.le).eq_of_length hl

theorem at_cons {p : ℕ} {b : UInt8} {v : List UInt8} :
    At buf p (b :: v) ↔ buf.data[p]? = some b ∧ At buf (p + 1) v := by
  rw [← List.singleton_append, at_append, List.length_singleton, At, ← List.head?_drop]
  cases buf.data.drop p <;> simp [eq_comm]

theorem sub_eq_of_at {p : ℕ} {v : List UInt8} (h : At buf p v) :
    (buf.sub p (p + v.length)).data = v := by
  rw [Bytes.data_sub, Nat.add_sub_cancel_left]
  exact (List.prefix_iff_eq_take.mp h).symm

/-- From every position of the buffer, the walk succeeds exactly on the words of `L` there. -/
def Reads (buf : Bytes T) (x : Walk ε α) (L : α → List UInt8 → Prop) : Prop :=
  ∀ p ≤ buf.len, ∀ a q, Yields x p a q ↔ ∃ v, L a v ∧ At buf p v ∧ q = p + v.length

theorem Reads.congr {x : Walk ε α} {L L' : α → List UInt8 → Prop} (h : Reads buf x L)
    (hL : ∀ a v, L a v ↔ L' a v) : Reads buf x L' := by
  intro p hp a q
  simp only [h p hp a q, hL]

theorem Reads.pure (a : α) : Reads buf (pure a : Walk ε α) (fun b v => a = b ∧ v = []) := by
  intro p hp b q
  rw [yields_pure]
  constructor
  · intro h
    obtain ⟨rfl, rfl⟩ := h
    exact ⟨[], ⟨rfl, rfl⟩, At.nil _, rfl⟩
  · intro h
    obtain ⟨v, ⟨rfl, rfl⟩, -, rfl⟩ := h
    exact ⟨rfl, rfl⟩

theorem Reads.fail (e : ε) : Reads buf (fail e : Walk ε α) (fun _ _ => False) := by
  intro p hp a q
  simp

/-- Sequencing reads the concatenation. -/
theorem Reads.bind {x : Walk ε α} {f : α → Walk ε β} {L : α → List UInt8 → Prop}
    {M : α → β → List UInt8 → Prop} (hx : Reads buf x L) (hf : ∀ a, Reads buf (f a) (M a)) :
    Reads buf (x >>= f) (fun b u => ∃ a v w, u = v ++ w ∧ L a v ∧ M a b w) := by
  intro p hp b q
  rw [yields_bind]
  constructor
  · intro h
    obtain ⟨a, m, hxa, hfa⟩ := h
    obtain ⟨v, hv, hav, rfl⟩ := (hx p hp a m).mp hxa
    obtain ⟨w, hw, haw, rfl⟩ := (hf a _ (hav.end_le hp) b q).mp hfa
    exact ⟨v ++ w, ⟨a, v, w, rfl, hv, hw⟩, at_append.mpr ⟨hav, haw⟩, by simp [Nat.add_assoc]⟩
  · intro h
    obtain ⟨u, ⟨a, v, w, rfl, hv, hw⟩, hu, rfl⟩ := h
    obtain ⟨hav, haw⟩ := at_append.mp hu
    refine ⟨a, _, (hx p hp a _).mpr ⟨v, hv, hav, rfl⟩, ?_⟩
    exact (hf a _ (hav.end_le hp) b _).mpr ⟨w, hw, haw, by simp [Nat.add_assoc]⟩

/-- The verdict on a word does not depend on the buffer it stands in. -/
theorem Reads.transfer {buf' : Bytes T} {x y : Walk ε α} {L : α → List UInt8 → Prop}
    (hx : Reads buf x L) (hy : Reads buf' y L) {p p' : ℕ} (hp : p ≤ buf.len) (hp' : p' ≤ buf'.len)
    {v : List UInt8} (hv : At buf p v) (hv' : At buf' p' v) (a : α) :
    Yields x p a (p + v.length) ↔ Yields y p' a (p' + v.length) := by
  rw [hx p hp, hy p' hp']
  constructor
  · intro h
    obtain ⟨w, hL, hw, he⟩ := h
    rw [hw.eq_of_length hv (by omega)] at hL
    exact ⟨v, hL, hv', rfl⟩
  · intro h
    obtain ⟨w, hL, hw, he⟩ := h
    rw [hw.eq_of_length hv' (by omega)] at hL
    exact ⟨v, hL, hv, rfl⟩

end VgiBson.CursorLanguages
