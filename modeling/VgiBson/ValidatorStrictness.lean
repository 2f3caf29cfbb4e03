import VgiBson.CursorAgreement
import VgiBson.ValidatorGrammar

/-! # Strict and lenient validation

The strict run and the lenient run are the same run until the strict one reports a duplicate key.
The keys collected so far differ, so the induction over the loop ranges over both collections. -/

namespace VgiBson.ValidatorStrictness

open MachineBytes CursorWalks CursorAgreement StructuralValidator ValidatorGrammar

variable {T : Target} {buf : Bytes T}

/-- Noting a key fails as a duplicate or lets the rest of the round go on. -/
theorem agrees_noteKey_bind {β : Type} (seen seen' : List String) (key : String)
    {f g : List String → Walk DecodeError β}
    (h : ∀ ks ks', AgreesUpTo .duplicateKey (f ks) (g ks')) :
    AgreesUpTo .duplicateKey (noteKey true seen key >>= f) (noteKey false seen' key >>= g) := by
  have hl : (noteKey false seen' key >>= g) = g seen' := pure_bind _ _
  rw [hl]
  by_cases hk : seen.contains key
  · have hs : noteKey true seen key = fail .duplicateKey := by
      simp only [noteKey, hk, if_true]
    rw [hs, fail_bind]
    exact .fail _
  · have hs : noteKey true seen key = pure (seen ++ [key]) := by
      rw [noteKey, if_pos rfl, if_neg hk]
    rw [hs, pure_bind]
    exact h _ _

theorem agrees_readPiece {doc doc' : Walk DecodeError Unit}
    (h : AgreesUpTo .duplicateKey doc doc') (piece : BsonGrammar.Piece) :
    AgreesUpTo .duplicateKey (readPiece buf doc piece) (readPiece buf doc' piece) := by
  cases piece with
  | document => exact h
  | _ => exact .refl _

theorem agrees_readPieces {doc doc' : Walk DecodeError Unit}
    (h : AgreesUpTo .duplicateKey doc doc') (ps : List BsonGrammar.Piece) :
    AgreesUpTo .duplicateKey (readPieces buf doc ps) (readPieces buf doc' ps) := by
  induction ps with
  | nil => exact .refl _
  | cons piece ps ih => exact (agrees_readPiece h piece).bind fun _ => ih

theorem agrees_validateValue {doc doc' : ℕ → Walk DecodeError Unit} {depth : ℕ}
    (h : ∀ d, AgreesUpTo .duplicateKey (doc d) (doc' d)) (ty : UInt8) :
    AgreesUpTo .duplicateKey (validateValue buf doc ty depth)
      (validateValue buf doc' ty depth) := by
  have hnested : AgreesUpTo .duplicateKey (nestedDoc doc T depth) (nestedDoc doc' T depth) :=
    .bind_same _ h
  rw [validateValue_eq_pieces, validateValue_eq_pieces]
  cases BsonGrammar.layout ty with
  | none => exact .refl _
  | some ps => exact agrees_readPieces hnested ps

theorem agrees_elementLoop {value value' : UInt8 → Walk DecodeError Unit}
    (h : ∀ ty, AgreesUpTo .duplicateKey (value ty) (value' ty)) (docEnd fuel : ℕ)
    (seen seen' : List String) : AgreesUpTo .duplicateKey
      (elementLoop buf true value docEnd fuel seen)
      (elementLoop buf false value' docEnd fuel seen') := by
  induction fuel generalizing seen seen' with
  | zero => exact .refl _
  | succ fuel ih =>
    apply AgreesUpTo.bind_same
    intro _
    apply AgreesUpTo.bind_same
    intro pos
    apply AgreesUpTo.ite (.refl _)
    apply AgreesUpTo.bind_same
    intro ty
    apply AgreesUpTo.bind_same
    intro _
    apply AgreesUpTo.ite (.refl _)
    apply AgreesUpTo.bind_same
    intro key
    apply agrees_noteKey_bind
    intro ks ks'
    apply (h ty).bind
    intro _
    apply AgreesUpTo.bind_same
    intro pos
    exact AgreesUpTo.ite (.refl _) (ih ks ks')

theorem agrees_documentBody {doc doc' : ℕ → Walk DecodeError Unit}
    (h : ∀ d, AgreesUpTo .duplicateKey (doc d) (doc' d)) (depth : ℕ) :
    AgreesUpTo .duplicateKey (documentBody buf true doc depth)
      (documentBody buf false doc' depth) := by
  apply AgreesUpTo.call
  apply AgreesUpTo.ite (.refl _)
  apply AgreesUpTo.bind_same
  intro docStart
  apply AgreesUpTo.bind_same
  intro declared
  apply AgreesUpTo.ite (.refl _)
  apply AgreesUpTo.bind_same
  intro docEnd
  apply AgreesUpTo.ite (.refl _)
  apply (agrees_elementLoop (fun ty => agrees_validateValue h ty) _ _ _ _).bind
  intro _
  exact .refl _

theorem agrees_validateDocAt (levels depth : ℕ) : AgreesUpTo .duplicateKey
    (validateDocAt buf true levels depth) (validateDocAt buf false levels depth) := by
  induction levels generalizing depth with
  | zero => exact .refl _
  | succ levels ih => exact agrees_documentBody ih depth

/-- The strict validator is the lenient one up to its duplicate-key error. -/
theorem agrees_validateDoc (buf : Bytes T) (depth : ℕ) :
    AgreesUpTo .duplicateKey (validateDoc buf depth true) (validateDoc buf depth false) :=
  agrees_validateDocAt _ _

theorem validate_of_error {b : Bytes T} {e : Stop DecodeError}
    (h : ((validateDoc b 0 true).run 0).out = .error e) : validate b = .error e := by
  simp only [validate, run_bind, Report.andThen_error h]

theorem validate_of_ok {b : Bytes T} (h : ((validateDoc b 0 true).run 0).out = .ok ()) :
    validate b = .ok () ∨ validate b = .error (.error .trailingBytes) := by
  simp only [validate, run_bind, Report.andThen_ok h]
  change ((position >>= _ : Walk DecodeError Unit).run _).out = _ ∨
    ((position >>= _ : Walk DecodeError Unit).run _).out = _
  rw [run_position_bind]
  by_cases hp : ((validateDoc b 0 true).run 0).pos ≠ b.len
  · right
    rw [if_pos hp]
    rfl
  · left
    rw [if_neg hp]
    rfl

/-- Strict and lenient validation differ only by duplicate keys. -/
theorem validateDoc_strict_lenient :
    (∀ (T : Target) (buf : Bytes T) (pos depth : ℕ),
      (∀ p, Yields (validateDoc buf depth true) pos () p →
        Yields (validateDoc buf depth false) pos () p) ∧
      (∀ e, e ≠ .duplicateKey → ((validateDoc buf depth true).run pos).out = .error (.error e) →
        ((validateDoc buf depth false).run pos).out = .error (.error e)) ∧
      (∀ e, ((validateDoc buf depth false).run pos).out = .error (.error e) →
        ((validateDoc buf depth true).run pos).out = .error (.error e) ∨
          ((validateDoc buf depth true).run pos).out = .error (.error .duplicateKey))) ∧
    (∀ (T : Target) (b : Bytes T), (validate b = .ok () → precheck b = .ok ()) ∧
      (precheck b = .ok () → validate b = .ok () ∨
        validate b = .error (.error .duplicateKey) ∨
        validate b = .error (.error .trailingBytes))) := by
  refine ⟨fun T buf pos depth => ⟨?_, ?_, ?_⟩, fun T b => ⟨?_, ?_⟩⟩
  · intro p h
    exact (agrees_validateDoc buf depth).yields h
  · intro e he h
    exact (agrees_validateDoc buf depth).error_right he h
  · intro e h
    exact (agrees_validateDoc buf depth).error_left h
  · intro h
    have hy := (validate_ok_iff_yields b).mp h
    exact ((agrees_validateDoc b 0).yields hy).1
  · intro h
    rcases agrees_validateDoc b 0 0 with hr | hr
    · have hs : ((validateDoc b 0 true).run 0).out = .ok () := by
        rw [hr]
        exact h
      rcases validate_of_ok hs with hv | hv
      · exact .inl hv
      · exact .inr (.inr hv)
    · exact .inr (.inl (validate_of_error hr))

end VgiBson.ValidatorStrictness
