import VgiBson.CursorWalks

/-! # Runs of a table producer

A producer is asked for one batch after another until it has none left. A one-shot producer hands
out everything at its first call. -/

namespace VgiBson.ProducerRuns

open CursorWalks

variable {σ ε β : Type}

/-- The result of the `n`-th call, counting from zero. -/
def callAt (next : σ → Outcome ε (Option β) × σ) (s : σ) : ℕ → Outcome ε (Option β)
  | 0 => (next s).1
  | n + 1 => callAt next (next s).2 n

/-- The calls return these batches, one after another, and then nothing for ever. -/
structure Returns (calls : ℕ → Outcome ε (Option β)) (batches : List β) : Prop where
  batch : ∀ i (h : i < batches.length), calls i = .ok (some batches[i])
  finished : ∀ i, batches.length ≤ i → calls i = .ok none

/-- No call of such a run fails. -/
theorem Returns.exists_ok {calls : ℕ → Outcome ε (Option β)} {batches : List β}
    (h : Returns calls batches) (n : ℕ) : ∃ r, calls n = .ok r := by
  rcases Nat.lt_or_ge n batches.length with hlt | hle
  · exact ⟨_, h.batch n hlt⟩
  · exact ⟨_, h.finished n hle⟩

/-- Every call leaves a finished state, and a finished state has nothing left and stays. -/
structure OneShot (next : σ → Outcome ε (Option β) × σ) (done : σ → Prop) : Prop where
  ends : ∀ s, done (next s).2
  nothing : ∀ s, done s → (next s).1 = .ok none

namespace OneShot

variable {next : σ → Outcome ε (Option β) × σ} {done : σ → Prop}

theorem callAt_of_done (h : OneShot next done) {s : σ} (hs : done s) (n : ℕ) :
    callAt next s n = .ok none := by
  induction n generalizing s with
  | zero => exact h.nothing s hs
  | succ n ih => exact ih (h.ends s)

theorem callAt_succ (h : OneShot next done) (s : σ) (n : ℕ) :
    callAt next s (n + 1) = .ok none := h.callAt_of_done (h.ends s) n

/-- A batch comes from the first call. -/
theorem eq_zero_of_batch (h : OneShot next done) {s : σ} {n : ℕ} {b : β}
    (hb : callAt next s n = .ok (some b)) : n = 0 := by
  cases n with
  | zero => rfl
  | succ n =>
    rw [h.callAt_succ] at hb
    cases hb

/-- The first call decides about the whole run. -/
theorem returns_singleton_iff (h : OneShot next done) (s : σ) (b : β) :
    Returns (callAt next s) [b] ↔ (next s).1 = .ok (some b) := by
  constructor
  · intro hr
    exact hr.batch 0 Nat.one_pos
  · intro hb
    constructor
    · intro i hi
      obtain rfl : i = 0 := Nat.lt_one_iff.mp hi
      exact hb
    · intro i hi
      obtain ⟨n, rfl⟩ : ∃ n, i = n + 1 := Nat.exists_eq_add_one.mpr hi
      exact h.callAt_succ s n

end OneShot

end VgiBson.ProducerRuns
