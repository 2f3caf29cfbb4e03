import VgiBson.CursorWalks

/-! # Errors that a walk never reports, or reports alone

A walk avoids an error when no run of it ends in that error. What a walk is composed of decides
what it avoids. In the same way a run can be known to succeed up to one error. -/

namespace VgiBson.CursorErrors

open MachineBytes CursorWalks

variable {ε α β : Type} {T : Target} {e e' : ε}

/-- No run ends in the error `e`. The rules find by themselves that two errors differ. -/
def Avoids (e : ε) (x : Walk ε α) : Prop := ∀ p, (x.run p).out ≠ .error (.error e)

theorem Avoids.pure (a : α) : Avoids e (pure a : Walk ε α) := nofun

theorem Avoids.fail (h : e' ≠ e := by intro h; cases h) : Avoids e (fail e' : Walk ε α) := by
  intro p hp
  cases hp
  exact h rfl

theorem Avoids.panic : Avoids e (stop .panic : Walk ε α) := nofun

theorem Avoids.fuel : Avoids e (stop .fuel : Walk ε α) := nofun

theorem Avoids.position : Avoids e (position : Walk ε ℕ) := nofun

theorem Avoids.moveTo (q : ℕ) : Avoids e (moveTo q : Walk ε Unit) := nofun

theorem Avoids.round : Avoids e (round : Walk ε Unit) := nofun

theorem Avoids.bind {x : Walk ε α} {f : α → Walk ε β} (hx : Avoids e x)
    (hf : ∀ a, Avoids e (f a)) : Avoids e (x >>= f) := by
  intro p
  rw [run_bind]
  cases h : (x.run p).out with
  | ok a =>
    rw [Report.andThen_ok h]
    exact hf a _
  | error stop =>
    rw [Report.andThen_error h]
    intro hstop
    cases hstop
    exact hx p h

theorem Avoids.ite {c : Prop} [Decidable c] {x y : Walk ε α} (hx : Avoids e x)
    (hy : Avoids e y) : Avoids e (if c then x else y) := by
  by_cases hc : c
  · rwa [if_pos hc]
  · rwa [if_neg hc]

theorem Avoids.guard {c : Prop} [Decidable c] {x : Walk ε α} (hx : Avoids e x)
    (h : e' ≠ e := by intro h; cases h) :
    Avoids e (if c then CursorWalks.fail e' else x) := (Avoids.fail h).ite hx

theorem Avoids.call {x : Walk ε α} (hx : Avoids e x) : Avoids e (call x) := hx

theorem Avoids.okOr (o : Option α) (h : e' ≠ e := by intro h; cases h) : Avoids e (okOr o e') := by
  cases o with
  | none => exact .fail h
  | some a => exact .pure a

theorem Avoids.orPanic (o : Option α) : Avoids e (orPanic o : Walk ε α) := by
  cases o with
  | none => exact .panic
  | some a => exact .pure a

theorem Avoids.advance (n : ℕ) : Avoids e (advance T n : Walk ε Unit) :=
  Avoids.position.bind fun _ => (Avoids.orPanic _).bind fun q => Avoids.moveTo q

variable {p q m : ℕ} {a : α} {b : β}

/-- Started at `p`, the walk returns `a` at `q`, unless it ends in the error `e`. -/
def YieldsUnless (e : ε) (x : Walk ε α) (p : ℕ) (a : α) (q : ℕ) : Prop :=
  Yields x p a q ∨ (x.run p).out = .error (.error e)

theorem YieldsUnless.bind {x : Walk ε α} {f : α → Walk ε β} (hx : YieldsUnless e x p a m)
    (hf : YieldsUnless e (f a) m b q) : YieldsUnless e (x >>= f) p b q := by
  rcases hx with hx | hx
  · rcases hf with hf | hf
    · exact .inl ((yields_bind x f p b q).mpr ⟨a, m, hx, hf⟩)
    · obtain ⟨ha, rfl⟩ := hx
      right
      rw [run_bind, Report.andThen_ok ha]
      exact hf
  · right
    rw [run_bind, Report.andThen_error hx]

/-- A first part that succeeds leaves the failure to the rest. -/
theorem YieldsUnless.after {x : Walk ε α} {f : α → Walk ε β} (hx : Yields x p a m)
    (hf : YieldsUnless e (f a) m b q) : YieldsUnless e (x >>= f) p b q :=
  YieldsUnless.bind (.inl hx) hf

theorem YieldsUnless.call {x : Walk ε α} (hx : YieldsUnless e x p a q) :
    YieldsUnless e (call x) p a q := hx

end VgiBson.CursorErrors
