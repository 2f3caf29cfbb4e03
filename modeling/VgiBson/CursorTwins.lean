import VgiBson.CursorBounds

/-! # Walks that make the same run

Two walks over one input are twins when they make the same run from every position of it. Walks over
buffers of different machines can be compared this way. -/

namespace VgiBson.CursorTwins

open MachineBytes CursorWalks CursorBounds

variable {ε α β : Type} {len c : ℕ}

/-- From every position of the input both walks make one run, and it stays in the input. -/
structure Twins (len : ℕ) (x y : Walk ε α) : Prop where
  same : ∀ p ≤ len, x.run p = y.run p
  inside : ∀ p ≤ len, (x.run p).pos ≤ len

namespace Twins

theorem of_bounded {x y : Walk ε α} (hx : ∀ p, BoundedAt len c x p)
    (h : ∀ p ≤ len, x.run p = y.run p) : Twins len x y := ⟨h, fun p => (hx p).inside⟩

theorem pure (a : α) : Twins len (pure a : Walk ε α) (pure a) := ⟨fun _ _ => rfl, fun _ hp => hp⟩

theorem stop (e : Stop ε) : Twins len (stop e : Walk ε α) (stop e) :=
  ⟨fun _ _ => rfl, fun _ hp => hp⟩

theorem fail (e : ε) : Twins len (fail e : Walk ε α) (fail e) := stop _

theorem bind {x y : Walk ε α} {f g : α → Walk ε β} (h : Twins len x y)
    (hf : ∀ a, Twins len (f a) (g a)) : Twins len (x >>= f) (y >>= g) := by
  constructor
  · intro p hp
    rw [run_bind, run_bind, ← h.same p hp]
    cases hr : (x.run p).out with
    | error e => rw [Report.andThen_error hr, Report.andThen_error hr]
    | ok a =>
      rw [Report.andThen_ok hr, Report.andThen_ok hr, (hf a).same _ (h.inside p hp)]
  · intro p hp
    rw [run_bind]
    cases hr : (x.run p).out with
    | error e =>
      rw [Report.andThen_error hr]
      exact h.inside p hp
    | ok a =>
      rw [Report.andThen_ok hr]
      exact (hf a).inside _ (h.inside p hp)

/-- A walk that reads its position goes on from it. -/
theorem position_run {f g : ℕ → Walk ε β}
    (h : ∀ q ≤ len, (f q).run q = (g q).run q ∧ ((f q).run q).pos ≤ len) :
    Twins len (position >>= f) (position >>= g) := by
  constructor
  · intro p hp
    rw [run_position_bind, run_position_bind]
    exact (h p hp).1
  · intro p hp
    rw [run_position_bind]
    exact (h p hp).2

theorem position_bind {f g : ℕ → Walk ε β} (h : ∀ q ≤ len, Twins len (f q) (g q)) :
    Twins len (position >>= f) (position >>= g) :=
  position_run fun q hq => ⟨(h q hq).same q hq, (h q hq).inside q hq⟩

theorem guard {b : Prop} [Decidable b] {e : ε} {x y : Walk ε α} (h : ¬ b → Twins len x y) :
    Twins len (if b then CursorWalks.fail e else x) (if b then CursorWalks.fail e else y) := by
  by_cases hb : b
  · rw [if_pos hb, if_pos hb]
    exact .fail e
  · rw [if_neg hb, if_neg hb]
    exact h hb

theorem call {x y : Walk ε α} (h : Twins len x y) : Twins len (call x) (call y) := by
  constructor
  · intro p hp
    simp only [CursorWalks.call, h.same p hp]
  · intro p hp
    exact h.inside p hp

end Twins

end VgiBson.CursorTwins
