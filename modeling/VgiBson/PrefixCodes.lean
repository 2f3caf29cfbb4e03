import Mathlib.Data.List.Basic
import Mathlib.Data.Nat.Notation

/-! # Factoring a word over a prefix code

A greedy reader cuts a word into code words until none begins at the rest. Over a prefix code the
cut is unique, so it can be compared with any other way of producing one. -/

namespace VgiBson.PrefixCodes

variable {α : Type} {L F : List α → Prop} {s t rest rest' : List α} {ws ws' : List (List α)}

/-- No code word is empty and none continues another. -/
structure PrefixCode (L : List α → Prop) : Prop where
  nonempty : ¬ L []
  unique {v w r t : List α} : L v → L w → v ++ r = w ++ t → v = w

/-- The word `s` is cut into the code words `ws` and a rest that begins with none. -/
structure Factors (L : List α → Prop) (s : List α) (ws : List (List α)) (rest : List α) :
    Prop where
  whole : s = ws.flatten ++ rest
  words : ∀ w ∈ ws, L w
  stuck : ∀ w t, rest = w ++ t → ¬ L w

theorem Factors.stop (h : ∀ w t, s = w ++ t → ¬ L w) : Factors L s [] s :=
  ⟨rfl, by simp, h⟩

theorem PrefixCode.factors_nil (hL : PrefixCode L) : Factors L [] [] [] := by
  apply Factors.stop
  intro w t h hw
  rw [(List.append_eq_nil_iff.mp h.symm).1] at hw
  exact hL.nonempty hw

theorem Factors.cons {w : List α} (hw : L w) (h : Factors L s ws rest) :
    Factors L (w ++ s) (w :: ws) rest := by
  refine ⟨?_, ?_, h.stuck⟩
  · rw [h.whole, List.flatten_cons, List.append_assoc]
  · intro v hv
    rcases List.mem_cons.mp hv with rfl | hv
    · exact hw
    · exact h.words v hv

/-- The cut of a word is its first code word and the cut of what follows it. -/
theorem Factors.of_cons {w : List α} (h : Factors L s (w :: ws) rest) :
    L w ∧ ∃ t, s = w ++ t ∧ Factors L t ws rest := by
  refine ⟨h.words w List.mem_cons_self, ws.flatten ++ rest, ?_, rfl, ?_, h.stuck⟩
  · rw [h.whole, List.flatten_cons, List.append_assoc]
  · exact fun v hv => h.words v (List.mem_cons_of_mem _ hv)

/-- The code words at the front of a word are the first ones of its cut. -/
theorem Factors.peel (hL : PrefixCode L) (hws : ∀ w ∈ ws, L w)
    (h : Factors L (ws.flatten ++ t) ws' rest) :
    ∃ us, ws' = ws ++ us ∧ Factors L t us rest := by
  induction ws generalizing ws' with
  | nil => exact ⟨ws', rfl, h⟩
  | cons w ws ih =>
    have hw := hws w List.mem_cons_self
    have hwhole := h.whole
    rw [List.flatten_cons, List.append_assoc] at hwhole
    cases ws' with
    | nil => exact absurd hw (h.stuck w (ws.flatten ++ t) hwhole.symm)
    | cons v ws' =>
      have hv := h.words v List.mem_cons_self
      rw [List.flatten_cons, List.append_assoc] at hwhole
      obtain rfl := hL.unique hw hv hwhole
      have htail : Factors L (ws.flatten ++ t) ws' rest :=
        ⟨List.append_cancel_left hwhole, fun u hu => h.words u (List.mem_cons_of_mem _ hu), h.stuck⟩
      obtain ⟨us, rfl, hus⟩ := ih (fun u hu => hws u (List.mem_cons_of_mem _ hu)) htail
      exact ⟨us, rfl, hus⟩

theorem Factors.unique (hL : PrefixCode L) (h : Factors L s ws rest)
    (h' : Factors L s ws' rest') : ws' = ws ∧ rest' = rest := by
  rw [h.whole] at h'
  obtain ⟨us, rfl, hus⟩ := h'.peel hL h.words
  cases us with
  | nil =>
    have hrest := hus.whole
    rw [List.flatten_nil, List.nil_append] at hrest
    exact ⟨List.append_nil ws, hrest.symm⟩
  | cons u us =>
    have hu := hus.words u List.mem_cons_self
    have hrest := hus.whole
    rw [List.flatten_cons, List.append_assoc] at hrest
    exact absurd hu (h.stuck _ _ hrest)

/-- Cutting off the end of a word loses the code words that no longer fit and no others. -/
theorem Factors.take (hL : PrefixCode L) (h : Factors L s ws rest) (n : ℕ) :
    ∃ k rest', k ≤ ws.length ∧ Factors L (s.take n) (ws.take k) rest' ∧
      (ws.take k).flatten.length ≤ n ∧
      ∀ j, k < j → j ≤ ws.length → n < (ws.take j).flatten.length := by
  induction ws generalizing s n with
  | nil =>
    have hs : s = rest := h.whole
    refine ⟨0, s.take n, Nat.le_refl 0, Factors.stop ?_, Nat.zero_le n, ?_⟩
    · intro w t hwt
      apply h.stuck w (t ++ s.drop n)
      rw [← List.append_assoc, ← hwt, List.take_append_drop, hs]
    · intro j hj hle
      exact absurd hle (Nat.not_le.mpr hj)
  | cons w ws ih =>
    obtain ⟨hw, t, hs, htail⟩ := h.of_cons
    by_cases hn : w.length ≤ n
    · obtain ⟨k, rest', hk, hcut, hin, hout⟩ := ih htail (n - w.length)
      refine ⟨k + 1, rest', Nat.succ_le_succ hk, ?_, ?_, ?_⟩
      · have htake : s.take n = w ++ t.take (n - w.length) := by
          rw [hs, List.take_append, List.take_of_length_le hn]
        rw [htake]
        exact hcut.cons hw
      · rw [List.take_succ_cons, List.flatten_cons, List.length_append]
        omega
      · intro j hj hle
        cases j with
        | zero => exact absurd hj (Nat.not_lt_zero _)
        | succ j =>
          have hrest := hout j (Nat.lt_of_succ_lt_succ hj) (Nat.le_of_succ_le_succ hle)
          rw [List.take_succ_cons, List.flatten_cons, List.length_append]
          omega
    · refine ⟨0, s.take n, Nat.zero_le _, Factors.stop ?_, Nat.zero_le n, ?_⟩
      · intro v u huv hv
        have hwhole : v ++ (u ++ s.drop n) = w ++ t := by
          rw [← List.append_assoc, ← huv, List.take_append_drop, hs]
        have hvw := hL.unique hv hw hwhole
        have hlen := congrArg List.length huv
        rw [List.length_take, List.length_append, hvw] at hlen
        omega
      · intro j hj _
        cases j with
        | zero => exact absurd hj (Nat.not_lt_zero _)
        | succ j =>
          rw [List.take_succ_cons, List.flatten_cons, List.length_append]
          omega

/-- In a sequence of frames the cut stops at the first frame that is no code word. -/
theorem Factors.mem_iff_of_frames (hF : PrefixCode F) (hLF : ∀ w, L w → F w)
    {fs : List (List α)} (hfs : ∀ f ∈ fs, F f) (h : Factors L fs.flatten ws rest) (f : List α) :
    f ∈ ws ↔ ∃ pre post, fs = pre ++ f :: post ∧ (∀ g ∈ pre, L g) ∧ L f := by
  have hL : PrefixCode L :=
    ⟨fun h0 => hF.nonempty (hLF _ h0), fun hv hw => hF.unique (hLF _ hv) (hLF _ hw)⟩
  induction fs generalizing ws with
  | nil =>
    obtain ⟨rfl, -⟩ := hL.factors_nil.unique hL h
    simp
  | cons g fs ih =>
    have hg := hfs g List.mem_cons_self
    by_cases hgL : L g
    · have hone : ∀ w ∈ [g], L w := by simpa using hgL
      have hcut : Factors L ([g].flatten ++ fs.flatten) ws rest := by simpa using h
      obtain ⟨us, rfl, hus⟩ := hcut.peel hL hone
      have hmem := ih (fun f hf => hfs f (List.mem_cons_of_mem _ hf)) hus
      constructor
      · intro hf
        rcases List.mem_cons.mp hf with rfl | hf
        · exact ⟨[], fs, rfl, by simp, hgL⟩
        · obtain ⟨pre, post, rfl, hpre, hfL⟩ := hmem.mp hf
          exact ⟨g :: pre, post, rfl, by simpa [hgL] using hpre, hfL⟩
      · intro hf
        obtain ⟨pre, post, he, hpre, hfL⟩ := hf
        cases pre with
        | nil =>
          rw [(List.cons.inj he).1]
          exact List.mem_cons_self
        | cons g' pre =>
          have htail : fs = pre ++ f :: post := (List.cons.inj he).2
          apply List.mem_cons_of_mem
          exact hmem.mpr ⟨pre, post, htail, fun v hv => hpre v (List.mem_cons_of_mem _ hv), hfL⟩
    · -- a code word at the front would be a frame, hence `g` itself
      have hnil : ws = [] := by
        cases ws with
        | nil => rfl
        | cons w ws =>
          have hw := h.words w List.mem_cons_self
          have hwhole := h.whole
          rw [List.flatten_cons, List.flatten_cons, List.append_assoc] at hwhole
          exact absurd (hF.unique hg (hLF _ hw) hwhole ▸ hw) hgL
      constructor
      · intro hf
        rw [hnil] at hf
        cases hf
      · intro hf
        obtain ⟨pre, post, he, hpre, hfL⟩ := hf
        cases pre with
        | nil => exact absurd ((List.cons.inj he).1 ▸ hfL) hgL
        | cons g' pre => exact absurd ((List.cons.inj he).1 ▸ hpre g' List.mem_cons_self) hgL

end VgiBson.PrefixCodes
