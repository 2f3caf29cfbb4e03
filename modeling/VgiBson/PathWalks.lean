import Mathlib.Data.List.Forall2

/-! # Following a path through a tree

A path is a list of labels, and following it goes down one label after the other. Two systems whose
single steps correspond have corresponding paths. -/

namespace VgiBson.PathWalks

variable {α β σ τ : Type} {step : α → σ → Option α} {step' : β → τ → Option β}

/-- The node at the end of the path, if every label on the way leads somewhere. -/
def follow (step : α → σ → Option α) (root : α) (path : List σ) : Option α :=
  path.foldlM step root

@[simp] theorem follow_nil (a : α) : follow step a [] = some a := rfl

theorem follow_cons (a : α) (s : σ) (path : List σ) :
    follow step a (s :: path) = (step a s).bind fun b => follow step b path := by
  rw [follow, List.foldlM_cons]
  rfl

theorem follow_singleton (a : α) (s : σ) : follow step a [s] = step a s := by
  rw [follow_cons]
  cases step a s <;> rfl

theorem follow_append (a : α) (path path' : List σ) :
    follow step a (path ++ path') = (follow step a path).bind fun b => follow step b path' := by
  rw [follow, List.foldlM_append]
  rfl

/-- Steps that correspond one by one carry a whole path over. -/
theorem follow_simulates {R : α → β → Prop} {S : σ → τ → Prop}
    (hstep : ∀ a b s t a', R a b → S s t → step a s = some a' →
      ∃ b', step' b t = some b' ∧ R a' b')
    {path : List σ} {path' : List τ} (hpath : List.Forall₂ S path path') {a a' : α} {b : β}
    (hR : R a b) (h : follow step a path = some a') :
    ∃ b', follow step' b path' = some b' ∧ R a' b' := by
  induction hpath generalizing a b with
  | nil =>
    cases h
    exact ⟨b, rfl, hR⟩
  | cons hS _ ih =>
    rw [follow_cons] at h
    obtain ⟨a₁, ha₁, h⟩ := Option.bind_eq_some_iff.mp h
    obtain ⟨b₁, hb₁, hR₁⟩ := hstep _ _ _ _ _ hR hS ha₁
    obtain ⟨b', hb', hR'⟩ := ih hR₁ h
    refine ⟨b', ?_, hR'⟩
    rw [follow_cons, hb₁]
    exact hb'

/-- Systems whose single steps correspond, dead ends included, correspond along every path. -/
theorem follow_rel {R : α → β → Prop} {step' : β → σ → Option β}
    (hstep : ∀ a b s, R a b → Option.Rel R (step a s) (step' b s)) {a : α} {b : β} (h : R a b)
    (path : List σ) : Option.Rel R (follow step a path) (follow step' b path) := by
  induction path generalizing a b with
  | nil => exact .some h
  | cons s path ih =>
    have hnext := hstep a b s h
    rw [follow_cons, follow_cons]
    revert hnext
    generalize step a s = next
    generalize step' b s = next'
    intro hnext
    cases hnext with
    | some h' => exact ih h'
    | none => exact .none

/-- A path whose every step can be labelled otherwise can be labelled otherwise. -/
theorem follow_relabel {step' : α → τ → Option α} {S : σ → τ → Prop}
    (hstep : ∀ a t a', step' a t = some a' → ∃ s, S s t ∧ step a s = some a')
    {path' : List τ} {a a' : α} (h : follow step' a path' = some a') :
    ∃ path, List.Forall₂ S path path' ∧ follow step a path = some a' := by
  induction path' generalizing a with
  | nil => exact ⟨[], .nil, h⟩
  | cons t path' ih =>
    rw [follow_cons] at h
    obtain ⟨a₁, ha₁, h⟩ := Option.bind_eq_some_iff.mp h
    obtain ⟨s, hS, hs⟩ := hstep _ _ _ ha₁
    obtain ⟨path, hpath, hfollow⟩ := ih h
    refine ⟨s :: path, .cons hS hpath, ?_⟩
    rw [follow_cons, hs]
    exact hfollow

end VgiBson.PathWalks
