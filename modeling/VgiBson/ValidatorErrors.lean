import VgiBson.CursorErrors
import VgiBson.ValidatorBounds
import VgiBson.ValidatorStrictness

/-! # Truncation and trailing bytes

The walk of the validator never reports trailing bytes: only its entry point does, after a document
that ends early. A length prefix past the end of the input is reported as truncation. -/

namespace VgiBson.ValidatorErrors

open MachineBytes CursorWalks CursorErrors CursorLanguages BsonGrammar StructuralValidator
  ValidatorGrammar ValidatorBounds ValidatorStrictness

variable {T : Target} {buf : Bytes T} {checkDupes : Bool}

/-- The error of the entry point, and the one that only the decoder reports. -/
def Foreign (e : DecodeError) : Prop := e = .trailingBytes ∨ e = .badDecimal128

instance (e : DecodeError) : Decidable (Foreign e) := inferInstanceAs (Decidable (_ ∨ _))

variable {e : DecodeError}

theorem Foreign.ne {e' : DecodeError} (he : Foreign e) (h : ¬ Foreign e' := by decide) :
    e' ≠ e := by
  rintro rfl
  exact h he

theorem avoids_readI32 (he : Foreign e) : Avoids e (readI32 buf) :=
  Avoids.position.bind fun _ => (Avoids.okOr _ he.ne).bind fun _ => (Avoids.okOr _ he.ne).bind
    fun _ => (Avoids.moveTo _).bind fun _ => (Avoids.orPanic _).bind fun _ =>
      (Avoids.orPanic _).bind fun _ => (Avoids.orPanic _).bind fun _ =>
        (Avoids.orPanic _).bind fun _ => Avoids.pure _

theorem avoids_skip (he : Foreign e) (n : ℕ) : Avoids e (skip buf n) :=
  Avoids.position.bind fun _ => (Avoids.okOr _ he.ne).bind fun _ =>
    Avoids.guard (Avoids.moveTo _) he.ne

theorem avoids_readCstringStr (he : Foreign e) : Avoids e (readCstringStr buf) :=
  Avoids.position.bind fun _ => (Avoids.okOr _ he.ne).bind fun _ => (Avoids.okOr _ he.ne).bind
    fun _ => (Avoids.orPanic _).bind fun _ => (Avoids.okOr _ he.ne).bind fun _ =>
      (Avoids.orPanic _).bind fun _ => (Avoids.advance _).bind fun _ => Avoids.pure _

theorem avoids_readString (he : Foreign e) : Avoids e (readString buf) := by
  apply (avoids_readI32 he).bind
  intro len
  apply Avoids.guard _ he.ne
  apply Avoids.position.bind
  intro start
  apply (avoids_skip he _).bind
  intro _
  have htext (bytes : Bytes T) (n : ℕ) : Avoids e (do
      let last ← subUsize n 1
      let text ← range bytes 0 last
      let _ ← okOr (fromUtf8 text.data) .badUtf8
      pure ()) :=
    (Avoids.orPanic _).bind fun _ => (Avoids.orPanic _).bind fun _ =>
      (Avoids.okOr _ he.ne).bind fun _ => Avoids.pure _
  exact (Avoids.orPanic _).bind fun _ => (Avoids.orPanic _).bind fun bytes =>
    (Avoids.orPanic _).bind fun _ => (Avoids.orPanic _).bind fun _ =>
      Avoids.guard (htext bytes _) he.ne

theorem avoids_readPiece (he : Foreign e) {doc : Walk DecodeError Unit} (hdoc : Avoids e doc)
    (piece : Piece) : Avoids e (readPiece buf doc piece) := by
  cases piece with
  | raw n => exact avoids_skip he n
  | boolean =>
    exact Avoids.position.bind fun _ => (avoids_skip he 1).bind fun _ => (Avoids.orPanic _).bind
      fun _ => (Avoids.pure _).ite (Avoids.fail he.ne)
  | text => exact avoids_readString he
  | cstring =>
    rw [readPiece, readCstring_eq]
    exact (avoids_readCstringStr he).bind fun _ => Avoids.pure _
  | binary =>
    exact (avoids_readI32 he).bind fun _ => Avoids.guard
      ((avoids_skip he _).bind fun _ => avoids_skip he _) he.ne
  | size => exact (avoids_readI32 he).bind fun _ => Avoids.guard (Avoids.pure _) he.ne
  | document => exact hdoc

theorem avoids_readPieces (he : Foreign e) {doc : Walk DecodeError Unit} (hdoc : Avoids e doc)
    (ps : List Piece) : Avoids e (readPieces buf doc ps) := by
  induction ps with
  | nil => exact .pure ()
  | cons piece ps ih => exact (avoids_readPiece he hdoc piece).bind fun _ => ih

theorem avoids_validateValue (he : Foreign e) {doc : ℕ → Walk DecodeError Unit} {depth : ℕ}
    (hdoc : ∀ d, Avoids e (doc d)) (ty : UInt8) : Avoids e (validateValue buf doc ty depth) := by
  rw [validateValue_eq_pieces]
  cases layout ty with
  | none => exact .fail he.ne
  | some ps => exact avoids_readPieces he ((Avoids.orPanic _).bind hdoc) ps

theorem avoids_elementLoop (he : Foreign e) {value : UInt8 → Walk DecodeError Unit}
    (hvalue : ∀ ty, Avoids e (value ty)) (docEnd fuel : ℕ) (seen : List String) :
    Avoids e (elementLoop buf checkDupes value docEnd fuel seen) := by
  induction fuel generalizing seen with
  | zero => exact .fuel
  | succ fuel ih =>
    have hnote (key : String) : Avoids e (noteKey checkDupes seen key) :=
      (Avoids.guard (Avoids.pure _) he.ne).ite (Avoids.pure _)
    apply Avoids.round.bind
    intro _
    apply Avoids.position.bind
    intro _
    apply Avoids.guard _ he.ne
    apply (Avoids.orPanic _).bind
    intro ty
    apply (Avoids.advance _).bind
    intro _
    apply (Avoids.pure _).ite
    exact (avoids_readCstringStr he).bind fun key => (hnote key).bind fun seen' =>
      (hvalue ty).bind fun _ => Avoids.position.bind fun _ => Avoids.guard (ih seen') he.ne

theorem avoids_validateDocAt (he : Foreign e) (levels depth : ℕ) :
    Avoids e (validateDocAt buf checkDupes levels depth) := by
  induction levels generalizing depth with
  | zero => exact .fuel
  | succ levels ih =>
    have hvalue := @avoids_validateValue T buf e he _ depth ih
    apply Avoids.call
    apply Avoids.guard _ he.ne
    apply Avoids.position.bind
    intro _
    apply (avoids_readI32 he).bind
    intro _
    apply Avoids.guard _ he.ne
    apply (Avoids.okOr _ he.ne).bind
    intro _
    apply Avoids.guard _ he.ne
    exact (avoids_elementLoop he hvalue _ _ _).bind fun _ => Avoids.position.bind fun _ =>
      Avoids.guard (Avoids.pure _) he.ne

/-- A document that ends early is the only way to trailing bytes. -/
theorem validate_trailing_iff (b : Bytes T) : validate b = .error (.error .trailingBytes) ↔
    ∃ n, n ≠ b.len ∧ Yields (validateDoc b 0 true) 0 () n := by
  cases h : ((validateDoc b 0 true).run 0).out with
  | error e =>
    rw [validate_of_error h]
    constructor
    · intro he
      cases he
      exact absurd h (avoids_validateDocAt (.inl rfl) _ _ _)
    · intro hy
      obtain ⟨n, -, hy, -⟩ := hy
      rw [h] at hy
      cases hy
  | ok u =>
    have hfull := validate_ok_iff_yields b
    constructor
    · intro ht
      refine ⟨_, ?_, h, rfl⟩
      intro hlen
      have hv := hfull.mpr ⟨h, hlen⟩
      rw [ht] at hv
      cases hv
    · intro hy
      obtain ⟨n, hn, hy, hpos⟩ := hy
      rcases validate_of_ok h with hv | hv
      · exact absurd ((hfull.mp hv).2.symm.trans hpos).symm hn
      · exact hv

/-- A document that declares more bytes than there are is truncated, also inside its prefix. -/
theorem truncated_of_declared {depth n p : ℕ} (hd : depth ≤ maxNesting) (h5 : 5 ≤ n)
    (hn : n < 2 ^ 31) (hp : p ≤ buf.len) (hat : p + 4 ≤ buf.len → At buf p (le32 n))
    (hlt : buf.len < p + n) :
    ((validateDoc buf depth checkDupes).run p).out = .error (.error .truncated) := by
  rcases @run_readI32 T buf p with ⟨h4, i, -, hr⟩ | hr
  · have hread : Yields (readI32 buf) p (n : ℤ) (p + 4) :=
      ((yields_readI32_ge (by decide : (0 : ℤ) ≤ 5) hp _ _).mpr
        ⟨n, by omega, hn, rfl, hat h4, rfl⟩).1
    obtain rfl : i = n := by
      have ho := hread.1
      rw [hr] at ho
      exact Except.ok.inj ho
    have hsize : T.usizeOfI32 n = n := by
      rw [T.usizeOfI32_of_nonneg (by omega) (by omega), Int.toNat_natCast]
    have h5' : ¬ (n : ℤ) < 5 := by omega
    simp only [validateDoc, validateDocAt, documentBody, if_neg (Nat.not_lt.mpr hd), call,
      run_position_bind]
    rw [run_bind, hr, Report.andThen_ok rfl]
    simp only [if_neg h5', hsize]
    cases hadd : T.checkedAdd p n with
    | none => rfl
    | some stop =>
      obtain ⟨-, rfl⟩ := Target.checkedAdd_eq_some_iff.mp hadd
      simp only [okOr_some, pure_bind, gt_iff_lt, if_pos hlt]
      rfl
  · simp only [validateDoc, validateDocAt, documentBody, if_neg (Nat.not_lt.mpr hd), call,
      run_position_bind, run_bind_of_error hr]

/-- A part of the byte string, from its start and shorter than all of it. -/
def ProperPrefix (p b : Bytes T) : Prop := p.data <+: b.data ∧ p.len < b.len

theorem validate_of_properPrefix {p d : Bytes T} (hd : validate d = .ok ())
    (hp : ProperPrefix p d) : validate p = .error (.error .truncated) := by
  have hdoc := (yields_validateDoc_full d 0 true).mp ((validate_ok_iff_yields d).mp hd)
  obtain ⟨h5, hlt, r, hr⟩ := hdoc.prefix_length
  obtain ⟨hpre, hlen⟩ := hp
  apply validate_of_error
  apply truncated_of_declared (Nat.zero_le _) h5 hlt (Nat.zero_le _)
  · intro h4
    have hword : le32 d.data.length <+: d.data := ⟨r, hr.symm⟩
    exact List.prefix_of_prefix_length_le hword hpre (by simpa [Bytes.len] using h4)
  · simpa [Bytes.len] using hlen

theorem validate_of_append {d e : Bytes T} (hd : validate d = .ok ()) (he : ProperPrefix d e) :
    validate e = .error (.error .trailingBytes) := by
  have hdoc := (yields_validateDoc_full d 0 true).mp ((validate_ok_iff_yields d).mp hd)
  rw [validate_trailing_iff]
  refine ⟨d.len, he.2.ne, ?_⟩
  rw [reads_validateDoc 0 true 0 (Nat.zero_le _)]
  exact ⟨d.data, hdoc, he.1, (Nat.zero_add _).symm⟩

/-- After a document that ends early, its own bytes are the one prefix that is accepted. -/
theorem exists_prefix_of_trailing {b : Bytes T}
    (hb : validate b = .error (.error .trailingBytes)) :
    ∃ p : Bytes T, ProperPrefix p b ∧ validate p = .ok () ∧
      ((readI32 b).run 0).out = .ok (p.len : ℤ) ∧
      ∀ p' : Bytes T, ProperPrefix p' b → validate p' = .ok () → p' = p := by
  obtain ⟨n, hn, hy⟩ := (validate_trailing_iff b).mp hb
  obtain ⟨declared, -, hread, hpos⟩ := declared_of_validateDoc_ok hy.1
  obtain ⟨d, hdoc, hat, hlen⟩ := (reads_validateDoc 0 true 0 (Nat.zero_le _) _ _).mp hy
  have hle := hat.end_le (Nat.zero_le _)
  obtain ⟨r, hr⟩ : d <+: b.data := hat
  let p : Bytes T := ⟨d, by
    have hfits := b.fits
    rw [← hr, List.length_append] at hfits
    omega⟩
  have hp : validate p = .ok () :=
    (validate_ok_iff_yields p).mpr ((yields_validateDoc_full p 0 true).mpr hdoc)
  have hplen : p.len = n := by
    rw [hlen, Nat.zero_add]
    rfl
  refine ⟨p, ⟨⟨r, hr⟩, ?_⟩, hp, ?_, ?_⟩
  · simp only [Bytes.len] at hle hn hplen ⊢
    omega
  · rw [hread]
    rw [hy.2] at hpos
    congr 2
    omega
  · intro p' hp' hv
    have hdoc' := (yields_validateDoc_full p' 0 true).mp ((validate_ok_iff_yields p').mp hv)
    obtain ⟨r', hr'⟩ := hp'.1
    ext1
    exact (hdoc'.append_inj hdoc (hr'.trans hr.symm)).1

/-- Truncation and trailing bytes are classified exactly. -/
theorem validate_classifies_length (T : Target) :
    (∀ d : Bytes T, validate d = .ok () →
      (∀ p, ProperPrefix p d → validate p = .error (.error .truncated)) ∧
      ∀ e, ProperPrefix d e → validate e = .error (.error .trailingBytes)) ∧
    ∀ b : Bytes T, validate b = .error (.error .trailingBytes) →
      ∃ p : Bytes T, ProperPrefix p b ∧ validate p = .ok () ∧
        ((readI32 b).run 0).out = .ok (p.len : ℤ) ∧
        ∀ p' : Bytes T, ProperPrefix p' b → validate p' = .ok () → p' = p := by
  constructor
  · intro d hd
    exact ⟨fun p hp => validate_of_properPrefix hd hp, fun e he => validate_of_append hd he⟩
  · intro b hb
    exact exists_prefix_of_trailing hb

end VgiBson.ValidatorErrors
