import VgiBson.CursorWalks

/-! # Walks that agree up to one error

A checked walk and its relaxed counterpart: from every position they report the same run, unless
the checked one leaves by the error of its extra check. -/

namespace VgiBson.CursorAgreement

open CursorWalks

variable {ε α β : Type} {d : ε}

/-- From every position the runs are the same, or the first one ends in the error `d`. -/
def AgreesUpTo (d : ε) (x y : Walk ε α) : Prop :=
  ∀ p, x.run p = y.run p ∨ (x.run p).out = .error (.error d)

theorem AgreesUpTo.refl (x : Walk ε α) : AgreesUpTo d x x := fun _ => .inl rfl

theorem AgreesUpTo.fail (y : Walk ε α) : AgreesUpTo d (fail d) y := fun _ => .inr rfl

/-- Agreement passes through a sequence: an early `d` ends both parts of it. -/
theorem AgreesUpTo.bind {x y : Walk ε α} {f g : α → Walk ε β} (hx : AgreesUpTo d x y)
    (hf : ∀ a, AgreesUpTo d (f a) (g a)) : AgreesUpTo d (x >>= f) (y >>= g) := by
  intro p
  rcases hx p with h | h
  · rw [run_bind, run_bind, ← h]
    cases ho : (x.run p).out with
    | error e =>
      left
      rw [Report.andThen_error ho, Report.andThen_error ho]
    | ok a =>
      rw [Report.andThen_ok ho, Report.andThen_ok ho]
      rcases hf a (x.run p).pos with hr | hr
      · left
        rw [hr]
      · right
        exact hr
  · right
    rw [run_bind, Report.andThen_error h]

theorem AgreesUpTo.bind_same (x : Walk ε α) {f g : α → Walk ε β}
    (hf : ∀ a, AgreesUpTo d (f a) (g a)) : AgreesUpTo d (x >>= f) (x >>= g) :=
  (AgreesUpTo.refl x).bind hf

theorem AgreesUpTo.ite {c : Prop} [Decidable c] {x x' y y' : Walk ε α}
    (hx : AgreesUpTo d x x') (hy : AgreesUpTo d y y') :
    AgreesUpTo d (if c then x else y) (if c then x' else y') := by
  by_cases hc : c
  · rwa [if_pos hc, if_pos hc]
  · rwa [if_neg hc, if_neg hc]

theorem AgreesUpTo.call {x y : Walk ε α} (h : AgreesUpTo d x y) :
    AgreesUpTo d (call x) (call y) := by
  intro p
  rcases h p with hr | hr
  · left
    simp only [CursorWalks.call, hr]
  · right
    exact hr

theorem AgreesUpTo.yields {x y : Walk ε α} (h : AgreesUpTo d x y) {p : ℕ} {a : α} {q : ℕ}
    (hx : Yields x p a q) : Yields y p a q := by
  obtain ⟨ho, hq⟩ := hx
  rcases h p with hr | hr
  · rw [hr] at ho hq
    exact ⟨ho, hq⟩
  · rw [ho] at hr
    cases hr

theorem AgreesUpTo.error_right {x y : Walk ε α} (h : AgreesUpTo d x y) {p : ℕ} {e : ε}
    (he : e ≠ d) (hx : (x.run p).out = .error (.error e)) : (y.run p).out = .error (.error e) := by
  rcases h p with hr | hr
  · rwa [← hr]
  · rw [hx] at hr
    cases hr
    exact absurd rfl he

theorem AgreesUpTo.error_left {x y : Walk ε α} (h : AgreesUpTo d x y) {p : ℕ} {e : ε}
    (hy : (y.run p).out = .error (.error e)) :
    (x.run p).out = .error (.error e) ∨ (x.run p).out = .error (.error d) := by
  rcases h p with hr | hr
  · left
    rwa [hr]
  · exact .inr hr

end VgiBson.CursorAgreement
