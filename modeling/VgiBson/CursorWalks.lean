import VgiBson.MachineBytes

/-! # Cursor programs and their run reports

A walk is a program over one mutable position. Its run reports the outcome, the position it left
behind (also when it failed), how many loop rounds it made and how many marked calls were live at
once. A stopped run is an ordinary error, a panic, or exhausted loop fuel; the last two are what a
safety proof excludes. -/

namespace VgiBson.CursorWalks

open MachineBytes

/-- Why a run ended without a value. -/
inductive Stop (ε : Type) where
  | error (e : ε)
  | panic
  | fuel
  deriving DecidableEq, Repr

/-- The result of code that may return an error or panic. -/
abbrev Outcome (ε α : Type) := Except (Stop ε) α

instance {ε α : Type} [DecidableEq ε] [DecidableEq α] : DecidableEq (Outcome ε α)
  | .ok a, .ok b => decidable_of_iff (a = b) ⟨congrArg _, fun h => Except.ok.inj h⟩
  | .error a, .error b => decidable_of_iff (a = b) ⟨congrArg _, fun h => Except.error.inj h⟩
  | .ok _, .error _ => isFalse nofun
  | .error _, .ok _ => isFalse nofun

/-- `&s[lo..hi]` on text. -/
def strRange {ε : Type} (s : String) (lo hi : ℕ) : Outcome ε String :=
  if lo ≤ hi ∧ hi ≤ (utf8 s).length then
    match fromUtf8 (((utf8 s).drop lo).take (hi - lo)) with
    | some t => .ok t
    | none => .error .panic
  else .error .panic

/-- A range of ASCII text is cut at characters. -/
theorem strRange_ascii {ε : Type} {l : List Char} (h : ∀ c ∈ l, c.toNat < 128) {lo hi : ℕ}
    (hlo : lo ≤ hi) (hhi : hi ≤ l.length) : (strRange (String.ofList l) lo hi : Outcome ε String) =
      .ok (String.ofList ((l.drop lo).take (hi - lo))) := by
  have hsub : ∀ c ∈ (l.drop lo).take (hi - lo), c.toNat < 128 :=
    fun c hc => h c (List.mem_of_mem_drop (List.mem_of_mem_take hc))
  have hread : fromUtf8 (((utf8 (String.ofList l)).drop lo).take (hi - lo)) =
      some (String.ofList ((l.drop lo).take (hi - lo))) := by
    rw [fromUtf8_eq_some_iff, utf8_ascii h, utf8_ascii hsub, List.map_take, List.map_drop]
  rw [strRange, if_pos ⟨hlo, by rwa [utf8_ascii h, List.length_map]⟩, hread]

/-- The run returned to its caller, with a value or with an ordinary error. -/
def Returned {ε α : Type} (r : Outcome ε α) : Prop := r ≠ .error .panic ∧ r ≠ .error .fuel

/-- Everything observed of one run. -/
@[ext] structure Report (ε α : Type) where
  out : Outcome ε α
  pos : ℕ
  rounds : ℕ
  height : ℕ

/-- A program over one position that may return a value. -/
@[ext] structure Walk (ε α : Type) where
  run : ℕ → Report ε α

variable {ε α β γ : Type} {T : Target}

/-- A call of code that has no errors of its own. -/
def infallible : Outcome Empty α → Outcome ε α
  | .ok a => .ok a
  | .error .panic => .error .panic
  | .error .fuel => .error .fuel

/-- A call of code that never panics. -/
def fallible : Except ε α → Outcome ε α
  | .ok a => .ok a
  | .error e => .error (.error e)

theorem ok_bind (a : α) (f : α → Outcome ε β) : (.ok a >>= f) = f a := rfl

theorem bind_eq_ok_iff {x : Outcome ε α} {f : α → Outcome ε β} {b : β} :
    x >>= f = .ok b ↔ ∃ a, x = .ok a ∧ f a = .ok b := by
  cases x with
  | ok a =>
    constructor
    · intro h
      exact ⟨a, rfl, h⟩
    · intro h
      obtain ⟨a', ha, h'⟩ := h
      cases ha
      exact h'
  | error e =>
    constructor
    · intro h
      cases h
    · intro h
      obtain ⟨a, ha, -⟩ := h
      cases ha

theorem mapM_eq_ok_iff {f : α → Outcome ε β} {l : List α} {bs : List β} :
    l.mapM f = .ok bs ↔ List.Forall₂ (fun a b => f a = .ok b) l bs := by
  induction l generalizing bs with
  | nil =>
    constructor
    · intro h
      cases h
      exact .nil
    · intro h
      cases h
      rfl
  | cons a l ih =>
    rw [List.mapM_cons]
    constructor
    · intro h
      obtain ⟨b, hb, h⟩ := bind_eq_ok_iff.mp h
      obtain ⟨bs', hbs, h⟩ := bind_eq_ok_iff.mp h
      cases h
      exact .cons hb (ih.mp hbs)
    · intro h
      cases h with
      | cons hb hbs =>
        rw [hb, ih.mpr hbs]
        rfl

/-- What every step returns, every value of the list has. -/
theorem mapM_forall {P : β → Prop} {f : α → Outcome ε β} (hf : ∀ a b, f a = .ok b → P b)
    (l : List α) {bs : List β} (h : l.mapM f = .ok bs) : ∀ b ∈ bs, P b := by
  have hsteps := mapM_eq_ok_iff.mp h
  clear h
  induction hsteps with
  | nil => simp
  | cons hb _ ih =>
    simp only [List.mem_cons, forall_eq_or_imp]
    exact ⟨hf _ _ hb, ih⟩

theorem exists_mapM {f : α → Outcome ε β} {l : List α} (h : ∀ a ∈ l, ∃ b, f a = .ok b) :
    ∃ bs, l.mapM f = .ok bs := by
  induction l with
  | nil => exact ⟨[], rfl⟩
  | cons a l ih =>
    obtain ⟨b, hb⟩ := h a List.mem_cons_self
    obtain ⟨bs, hbs⟩ := ih fun a ha => h a (List.mem_cons_of_mem _ ha)
    exact ⟨b :: bs, mapM_eq_ok_iff.mpr (.cons hb (mapM_eq_ok_iff.mp hbs))⟩

/-- A loop whose steps can only fail in one way fails in that way. -/
theorem mapM_eq_error {f : α → Outcome ε β} {e : Stop ε} {l : List α}
    (h : ∀ a ∈ l, (∃ b, f a = .ok b) ∨ f a = .error e) (he : ∃ a ∈ l, f a = .error e) :
    l.mapM f = .error e := by
  induction l with
  | nil =>
    obtain ⟨a, ha, -⟩ := he
    cases ha
  | cons a l ih =>
    rw [List.mapM_cons]
    rcases h a List.mem_cons_self with hb | ha
    · obtain ⟨b, hb⟩ := hb
      obtain ⟨a', ha', he'⟩ := he
      have hrest : ∃ a ∈ l, f a = .error e := by
        rcases List.mem_cons.mp ha' with rfl | ha'
        · rw [hb] at he'
          cases he'
        · exact ⟨a', ha', he'⟩
      rw [hb, ih (fun a ha => h a (List.mem_cons_of_mem _ ha)) hrest]
      rfl
    · rw [ha]
      rfl

/-- What every step keeps, the whole loop keeps. -/
theorem foldlM_invariant {P : β → Prop} {f : β → α → Outcome ε β}
    (hf : ∀ b a b', P b → f b a = .ok b' → P b') (l : List α) {b b' : β} (hb : P b)
    (h : l.foldlM f b = .ok b') : P b' := by
  induction l generalizing b with
  | nil =>
    cases h
    exact hb
  | cons a l ih =>
    rw [List.foldlM_cons] at h
    obtain ⟨b₁, hb₁, h⟩ := bind_eq_ok_iff.mp h
    exact ih (hf b a b₁ hb hb₁) h

/-- Continue a run from the position it left, adding up its counters. -/
def Report.andThen (r : Report ε α) (f : α → ℕ → Report ε β) : Report ε β :=
  match r.out with
  | .ok a => { f a r.pos with
      rounds := r.rounds + (f a r.pos).rounds
      height := max r.height (f a r.pos).height }
  | .error e => ⟨.error e, r.pos, r.rounds, r.height⟩

instance : Monad (Walk ε) where
  pure a := ⟨fun p => ⟨.ok a, p, 0, 0⟩⟩
  bind x f := ⟨fun p => (x.run p).andThen (fun a => (f a).run)⟩

@[simp] theorem run_pure (a : α) (p : ℕ) : (pure a : Walk ε α).run p = ⟨.ok a, p, 0, 0⟩ := rfl

theorem run_bind (x : Walk ε α) (f : α → Walk ε β) (p : ℕ) :
    (x >>= f).run p = (x.run p).andThen (fun a => (f a).run) := rfl

theorem Report.andThen_ok {r : Report ε α} {a : α} (h : r.out = .ok a)
    (f : α → ℕ → Report ε β) : r.andThen f =
      ⟨(f a r.pos).out, (f a r.pos).pos, r.rounds + (f a r.pos).rounds,
        max r.height (f a r.pos).height⟩ := by
  simp only [andThen, h]

theorem Report.andThen_error {r : Report ε α} {e : Stop ε} (h : r.out = .error e)
    (f : α → ℕ → Report ε β) : r.andThen f = ⟨.error e, r.pos, r.rounds, r.height⟩ := by
  simp only [andThen, h]

/-- Continuing with the value alone changes nothing. -/
theorem Report.andThen_pure (r : Report ε α) :
    r.andThen (fun a q => ⟨.ok a, q, 0, 0⟩) = r := by
  cases h : r.out with
  | ok a =>
    rw [andThen_ok h]
    ext1 <;> simp [h]
  | error e =>
    rw [andThen_error h]
    ext1 <;> simp [h]

theorem Report.andThen_assoc (r : Report ε α) (f : α → ℕ → Report ε β)
    (g : β → ℕ → Report ε γ) :
    (r.andThen f).andThen g = r.andThen (fun a p => (f a p).andThen g) := by
  cases hr : r.out with
  | error e =>
    rw [andThen_error hr, andThen_error hr]
    exact andThen_error rfl g
  | ok a =>
    rw [andThen_ok hr, andThen_ok hr]
    cases hf : (f a r.pos).out with
    | error e =>
      rw [andThen_error rfl, andThen_error hf]
    | ok b =>
      rw [andThen_ok rfl, andThen_ok hf]
      ext1 <;> simp [Nat.add_assoc]

instance : LawfulMonad (Walk ε) := LawfulMonad.mk' (Walk ε)
  (fun x => Walk.ext (funext fun p => (x.run p).andThen_pure))
  (fun a f => by
    ext1
    funext p
    rw [run_bind, run_pure, Report.andThen_ok rfl]
    ext1 <;> simp)
  (fun x f g => Walk.ext (funext fun p => (x.run p).andThen_assoc _ _))

theorem run_bind_of_error {x : Walk ε α} {p q n h : ℕ} {e : Stop ε}
    (hx : x.run p = ⟨.error e, q, n, h⟩) (f : α → Walk ε β) :
    (x >>= f).run p = ⟨.error e, q, n, h⟩ := by
  rw [run_bind, hx]
  rfl

/-- Only the continuation of the value and the position at hand matters. -/
theorem run_bind_congr {x : Walk ε α} {f g : α → Walk ε β} {p : ℕ}
    (h : ∀ a, (x.run p).out = .ok a → (f a).run (x.run p).pos = (g a).run (x.run p).pos) :
    (x >>= f).run p = (x >>= g).run p := by
  rw [run_bind, run_bind]
  cases hx : (x.run p).out with
  | ok a => rw [Report.andThen_ok hx, Report.andThen_ok hx, h a hx]
  | error e => rw [Report.andThen_error hx, Report.andThen_error hx]

def stop (e : Stop ε) : Walk ε α := ⟨fun p => ⟨.error e, p, 0, 0⟩⟩

/-- `return Err(e)`. -/
def fail (e : ε) : Walk ε α := stop (.error e)

def position : Walk ε ℕ := ⟨fun p => ⟨.ok p, p, 0, 0⟩⟩

def moveTo (q : ℕ) : Walk ε Unit := ⟨fun _ => ⟨.ok (), q, 0, 0⟩⟩

/-- Mark one round of a loop. -/
def round : Walk ε Unit := ⟨fun p => ⟨.ok (), p, 1, 0⟩⟩

/-- Mark one call whose nesting is counted. -/
def call (x : Walk ε α) : Walk ε α :=
  ⟨fun p => { x.run p with height := (x.run p).height + 1 }⟩

/-- `o.ok_or(e)?`. -/
def okOr (o : Option α) (e : ε) : Walk ε α :=
  match o with
  | some a => pure a
  | none => fail e

/-- A partial operation of the language: no value means a panic. -/
def orPanic (o : Option α) : Walk ε α :=
  match o with
  | some a => pure a
  | none => stop .panic

/-- `a + b` on `usize`. -/
def addUsize (T : Target) (a b : ℕ) : Walk ε ℕ := orPanic (T.checkedAdd a b)

/-- `a - b` on `usize`. -/
def subUsize (a b : ℕ) : Walk ε ℕ := orPanic (if b ≤ a then some (a - b) else none)

/-- `*pos += n`. -/
def advance (T : Target) (n : ℕ) : Walk ε Unit := do
  let p ← position
  let q ← addUsize T p n
  moveTo q

/-- `buf[i]`. -/
def index (buf : Bytes T) (i : ℕ) : Walk ε UInt8 := orPanic buf.data[i]?

/-- `&buf[lo..hi]`. -/
def range (buf : Bytes T) (lo hi : ℕ) : Walk ε (Bytes T) := orPanic (buf.getRange lo hi)

/-- Run `x` and hand its ordinary error to a caller with errors of its own as a value. -/
def attempt {ε' : Type} (x : Walk ε α) : Walk ε' (Except ε α) := ⟨fun p =>
  ⟨match (x.run p).out with
    | .ok a => .ok (.ok a)
    | .error (.error e) => .ok (.error e)
    | .error .panic => .error .panic
    | .error .fuel => .error .fuel,
  (x.run p).pos, (x.run p).rounds, (x.run p).height⟩⟩

@[simp] theorem okOr_some (a : α) (e : ε) : okOr (some a) e = pure a := rfl
@[simp] theorem okOr_none (e : ε) : okOr (none : Option α) e = fail e := rfl
@[simp] theorem orPanic_some (a : α) : (orPanic (some a) : Walk ε α) = pure a := rfl
@[simp] theorem orPanic_none : (orPanic (none : Option α) : Walk ε α) = stop .panic := rfl

@[simp] theorem fail_bind (e : ε) (f : α → Walk ε β) : (fail e >>= f) = fail e := rfl

/-- A check that leaves by an error guards all that follows it. -/
theorem guard_bind (c : Prop) [Decidable c] (e : ε) (f : Unit → Walk ε β) :
    ((if c then fail e else pure ()) >>= f) = if c then fail e else f () := by
  split
  · rfl
  · exact pure_bind () f

@[simp] theorem run_position_bind (f : ℕ → Walk ε β) (p : ℕ) :
    (position >>= f).run p = (f p).run p := by
  rw [run_bind, Report.andThen_ok rfl]
  ext1 <;> simp [position]

@[simp] theorem run_moveTo_bind (q : ℕ) (f : Unit → Walk ε β) (p : ℕ) :
    (moveTo q >>= f).run p = (f ()).run q := by
  rw [run_bind, Report.andThen_ok rfl]
  ext1 <;> simp [moveTo]

theorem attempt_bind_of_ok {ε' : Type} {x : Walk ε α} {p : ℕ} {a : α}
    (h : (x.run p).out = .ok a) (f : Except ε α → Walk ε' β) :
    ((attempt x >>= f).run p).out = ((f (.ok a)).run (x.run p).pos).out := by
  have ha : ((attempt x : Walk ε' _).run p).out = .ok (.ok a) := by simp only [attempt, h]
  rw [run_bind, Report.andThen_ok ha]
  rfl

theorem attempt_bind_of_error {ε' : Type} {x : Walk ε α} {p : ℕ} {e : ε}
    (h : (x.run p).out = .error (.error e)) (f : Except ε α → Walk ε' β) :
    ((attempt x >>= f).run p).out = ((f (.error e)).run (x.run p).pos).out := by
  have ha : ((attempt x : Walk ε' _).run p).out = .ok (.error e) := by simp only [attempt, h]
  rw [run_bind, Report.andThen_ok ha]
  rfl

/-- Started at `p`, the walk returns `a` and leaves the position at `q`. -/
def Yields (x : Walk ε α) (p : ℕ) (a : α) (q : ℕ) : Prop :=
  (x.run p).out = .ok a ∧ (x.run p).pos = q

@[simp] theorem yields_pure (a b : α) (p q : ℕ) :
    Yields (pure a : Walk ε α) p b q ↔ a = b ∧ p = q := by
  simp [Yields]

/-- A successful sequence is a successful first part and a successful rest. -/
@[simp] theorem yields_bind (x : Walk ε α) (f : α → Walk ε β) (p : ℕ) (b : β) (q : ℕ) :
    Yields (x >>= f) p b q ↔ ∃ a m, Yields x p a m ∧ Yields (f a) m b q := by
  simp only [Yields, run_bind]
  cases h : (x.run p).out with
  | ok a =>
    rw [Report.andThen_ok h]
    constructor
    · intro hr
      exact ⟨a, _, ⟨rfl, rfl⟩, hr⟩
    · intro h
      obtain ⟨a', m, ⟨ha, rfl⟩, hr⟩ := h
      cases ha
      exact hr
  | error e =>
    rw [Report.andThen_error h]
    simp

@[simp] theorem yields_stop (e : Stop ε) (p : ℕ) (a : α) (q : ℕ) :
    ¬ Yields (stop e : Walk ε α) p a q := by
  simp [Yields, stop]

@[simp] theorem yields_fail (e : ε) (p : ℕ) (a : α) (q : ℕ) :
    ¬ Yields (fail e : Walk ε α) p a q := yields_stop _ _ _ _

@[simp] theorem yields_position (p a q : ℕ) :
    Yields (position : Walk ε ℕ) p a q ↔ p = a ∧ p = q := by
  simp [Yields, position]

@[simp] theorem yields_moveTo (m p : ℕ) (u : Unit) (q : ℕ) :
    Yields (moveTo m : Walk ε Unit) p u q ↔ m = q := by
  simp [Yields, moveTo]

@[simp] theorem yields_round (p : ℕ) (u : Unit) (q : ℕ) :
    Yields (round : Walk ε Unit) p u q ↔ p = q := by
  simp [Yields, round]

@[simp] theorem yields_call (x : Walk ε α) (p : ℕ) (a : α) (q : ℕ) :
    Yields (call x) p a q ↔ Yields x p a q := Iff.rfl

@[simp] theorem yields_okOr (o : Option α) (e : ε) (p : ℕ) (a : α) (q : ℕ) :
    Yields (okOr o e) p a q ↔ o = some a ∧ p = q := by
  cases o <;> simp

@[simp] theorem yields_orPanic (o : Option α) (p : ℕ) (a : α) (q : ℕ) :
    Yields (orPanic o : Walk ε α) p a q ↔ o = some a ∧ p = q := by
  cases o <;> simp

/-- A branch that returns at once. -/
@[simp] theorem yields_ite_pure (c : Prop) [Decidable c] (b : α) (y : Walk ε α) (p : ℕ) (a : α)
    (q : ℕ) : Yields (if c then pure b else y) p a q ↔
      (c ∧ b = a ∧ p = q) ∨ (¬ c ∧ Yields y p a q) := by
  by_cases h : c <;> simp [h]

/-- A guard that leaves by an error only lets the negated condition through. -/
@[simp] theorem yields_ite_fail (c : Prop) [Decidable c] (e : ε) (y : Walk ε α) (p : ℕ) (a : α)
    (q : ℕ) : Yields (if c then fail e else y) p a q ↔ ¬ c ∧ Yields y p a q := by
  by_cases h : c <;> simp [h]

end VgiBson.CursorWalks
