import VgiBson.CursorWalks

/-! # Safe walks

A walk is bounded at a position when its run from there returns without a panic and without running
out of loop fuel, never moves back, stays inside the buffer if it started inside, and pays for each
loop round with a consumed byte, up to a given credit. -/

namespace VgiBson.CursorBounds

open MachineBytes CursorWalks

variable {ε α β : Type} {T : Target} {len c d p : ℕ}

structure BoundedAt (len c : ℕ) (x : Walk ε α) (p : ℕ) : Prop where
  returned : Returned (x.run p).out
  mono : p ≤ (x.run p).pos
  inside : p ≤ len → (x.run p).pos ≤ len
  paid : p + (x.run p).rounds ≤ (x.run p).pos + c

theorem BoundedAt.weaken {x : Walk ε α} (h : BoundedAt len c x p) (hc : c ≤ d) :
    BoundedAt len d x p :=
  ⟨h.returned, h.mono, h.inside, h.paid.trans (Nat.add_le_add_left hc _)⟩

/-- Only the run from the position matters. -/
theorem BoundedAt.congr {x y : Walk ε α} (h : BoundedAt len c x p) (hrun : y.run p = x.run p) :
    BoundedAt len c y p := by
  obtain ⟨hret, hmono, hin, hpaid⟩ := h
  rw [← hrun] at hret hmono hin hpaid
  exact ⟨hret, hmono, hin, hpaid⟩

/-- A run that stays where it is and makes no round. -/
theorem BoundedAt.still {x : Walk ε α} {o : Outcome ε α} {h : ℕ} (ho : Returned o)
    (hx : x.run p = ⟨o, p, 0, h⟩) : BoundedAt len 0 x p := by
  constructor <;> simp [hx, ho]

theorem returned_ok (a : α) : Returned (.ok a : Outcome ε α) := ⟨nofun, nofun⟩

theorem returned_error (e : ε) : Returned (.error (.error e) : Outcome ε α) := by
  constructor <;> simp

theorem BoundedAt.pure (a : α) : BoundedAt len 0 (pure a : Walk ε α) p :=
  .still (returned_ok a) rfl

theorem BoundedAt.fail (e : ε) : BoundedAt len 0 (fail e : Walk ε α) p :=
  .still (returned_error e) rfl

theorem BoundedAt.round : BoundedAt len 1 (round : Walk ε Unit) p := by
  constructor <;> simp [CursorWalks.round, returned_ok]

/-- What the first part consumed beyond its rounds is credit for the rest. -/
theorem BoundedAt.bind {x : Walk ε α} {f : α → Walk ε β} (hx : BoundedAt len c x p)
    (hf : ∀ a, (x.run p).out = .ok a → BoundedAt len d (f a) (x.run p).pos ∧
      p + (x.run p).rounds + d ≤ (x.run p).pos + c) :
    BoundedAt len c (x >>= f) p := by
  have hmono := hx.mono
  cases h : (x.run p).out with
  | error e =>
    have hret := hx.returned
    rw [h] at hret
    constructor
    · rw [run_bind, Report.andThen_error h]
      exact ⟨fun he => hret.1 (by cases he; rfl), fun he => hret.2 (by cases he; rfl)⟩
    · rw [run_bind, Report.andThen_error h]
      exact hx.mono
    · rw [run_bind, Report.andThen_error h]
      exact hx.inside
    · rw [run_bind, Report.andThen_error h]
      exact hx.paid
  | ok a =>
    obtain ⟨hfa, hpay⟩ := hf a h
    have hfm := hfa.mono
    have hfp := hfa.paid
    constructor
    · rw [run_bind, Report.andThen_ok h]
      exact hfa.returned
    · rw [run_bind, Report.andThen_ok h]
      exact hmono.trans hfm
    · rw [run_bind, Report.andThen_ok h]
      exact fun hp => hfa.inside (hx.inside hp)
    · rw [run_bind, Report.andThen_ok h]
      simp only
      omega

/-- A first part that needs no credit leaves it to the rest. -/
theorem BoundedAt.bind_same {x : Walk ε α} {f : α → Walk ε β} (hx : BoundedAt len 0 x p)
    (hf : ∀ a, (x.run p).out = .ok a → BoundedAt len c (f a) (x.run p).pos) :
    BoundedAt len c (x >>= f) p :=
  (hx.weaken (Nat.zero_le c)).bind fun a ha => ⟨hf a ha, Nat.add_le_add_right hx.paid c⟩

theorem BoundedAt.position_bind {f : ℕ → Walk ε β} (hf : BoundedAt len c (f p) p) :
    BoundedAt len c (CursorWalks.position >>= f) p := by
  obtain ⟨hret, hmono, hin, hpaid⟩ := hf
  rw [← run_position_bind f] at hret hmono hin hpaid
  exact ⟨hret, hmono, hin, hpaid⟩

theorem BoundedAt.guard {b : Prop} [Decidable b] {e : ε} {x : Walk ε α}
    (hx : ¬ b → BoundedAt len c x p) :
    BoundedAt len c (if b then CursorWalks.fail e else x) p := by
  by_cases h : b
  · rw [if_pos h]
    exact (BoundedAt.fail e).weaken (Nat.zero_le _)
  · rw [if_neg h]
    exact hx h

theorem BoundedAt.call {x : Walk ε α} (hx : BoundedAt len c x p) :
    BoundedAt len c (call x) p :=
  ⟨hx.returned, hx.mono, hx.inside, hx.paid⟩

/-- Catching an error costs nothing. -/
theorem BoundedAt.attempt {ε' : Type} {x : Walk ε α} (h : BoundedAt len c x p) :
    BoundedAt len c (attempt x : Walk ε' _) p := by
  refine ⟨?_, h.mono, h.inside, h.paid⟩
  have hret := h.returned
  rw [CursorWalks.attempt]
  dsimp only
  cases hx : (x.run p).out with
  | ok a => exact returned_ok _
  | error e =>
    rw [hx] at hret
    cases e with
    | error e => exact returned_ok _
    | panic => exact absurd rfl hret.1
    | fuel => exact absurd rfl hret.2

/-- No run of the walk has more than `h` marked calls live at once. -/
def Shallow (h : ℕ) (x : Walk ε α) : Prop := ∀ p, (x.run p).height ≤ h

theorem Shallow.bind {h : ℕ} {x : Walk ε α} {f : α → Walk ε β} (hx : Shallow h x)
    (hf : ∀ a, Shallow h (f a)) : Shallow h (x >>= f) := by
  intro p
  rw [run_bind]
  cases hr : (x.run p).out with
  | error e =>
    rw [Report.andThen_error hr]
    exact hx p
  | ok a =>
    rw [Report.andThen_ok hr]
    exact max_le (hx p) (hf a _)

theorem Shallow.call {h : ℕ} {x : Walk ε α} (hx : Shallow h x) : Shallow (h + 1) (call x) :=
  fun p => Nat.succ_le_succ (hx p)

theorem Shallow.ite {h : ℕ} {c : Prop} [Decidable c] {x y : Walk ε α} (hx : Shallow h x)
    (hy : ¬ c → Shallow h y) : Shallow h (if c then x else y) := by
  by_cases hc : c
  · rwa [if_pos hc]
  · rw [if_neg hc]
    exact hy hc

theorem Shallow.of_zero {h : ℕ} {x : Walk ε α} (hx : Shallow 0 x) : Shallow h x :=
  fun p => (hx p).trans (Nat.zero_le h)

theorem Shallow.pure (a : α) : Shallow 0 (pure a : Walk ε α) := fun _ => Nat.le_refl 0

theorem Shallow.stop (e : Stop ε) : Shallow 0 (stop e : Walk ε α) := fun _ => Nat.le_refl 0

theorem Shallow.fail (e : ε) : Shallow 0 (fail e : Walk ε α) := Shallow.stop _

theorem Shallow.position : Shallow 0 (position : Walk ε ℕ) := fun _ => Nat.le_refl 0

theorem Shallow.moveTo (q : ℕ) : Shallow 0 (moveTo q : Walk ε Unit) := fun _ => Nat.le_refl 0

theorem Shallow.round : Shallow 0 (round : Walk ε Unit) := fun _ => Nat.le_refl 0

theorem Shallow.attempt {ε' : Type} {h : ℕ} {x : Walk ε α} (hx : Shallow h x) :
    Shallow h (attempt x : Walk ε' _) := hx

theorem Shallow.okOr (o : Option α) (e : ε) : Shallow 0 (okOr o e) := by
  cases o with
  | none => exact .fail e
  | some a => exact .pure a

theorem Shallow.orPanic (o : Option α) : Shallow 0 (orPanic o : Walk ε α) := by
  cases o with
  | none => exact .stop _
  | some a => exact .pure a

theorem Shallow.advance (n : ℕ) : Shallow 0 (advance T n : Walk ε Unit) :=
  Shallow.position.bind fun _ => (Shallow.orPanic _).bind fun q => Shallow.moveTo q

end VgiBson.CursorBounds
