import VgiBson.ValidatorErrors

/-! # The nesting limit

A document of the grammar that nests too deeply is reported as such and as nothing else: whatever
stands in it, the walk only meets the limit. From this, the errors that the validator reports at
all. -/

namespace VgiBson.NestingLimit

open MachineBytes CursorWalks CursorErrors CursorLanguages BsonGrammar StructuralValidator
  ValidatorGrammar ValidatorBounds ValidatorStrictness ValidatorErrors

variable {T : Target} {buf : Bytes T} {checkDupes : Bool}

/-- What a phrase of the grammar says of the walk that reads it. -/
def Reaches (buf : Bytes T) (checkDupes : Bool) : Phrase → List UInt8 → Prop
  | .document k, v => ∀ p ≤ buf.len, At buf p v →
      YieldsUnless .nestingLimit (validateDoc buf k checkDupes) p () (p + v.length)
  | .elements k keys, v => k ≤ maxNesting → ∀ p ≤ buf.len, At buf p (v ++ [0]) →
      ∀ docEnd fuel seen, p + (v.length + 1) = docEnd → v.length + 1 < fuel →
      Fresh checkDupes seen keys → YieldsUnless .nestingLimit (elementLoop buf checkDupes
        (fun ty => validateValue buf (fun d => validateDoc buf d checkDupes) ty k)
        docEnd fuel seen) p () docEnd
  | .pieces k ps, v => ∀ p ≤ buf.len, At buf p v →
      YieldsUnless .nestingLimit (readPieces buf (validateDoc buf (k + 1) checkDupes) ps) p ()
        (p + v.length)

variable {k : ℕ} {piece : Piece} {ps : List Piece} {v w : List UInt8}

theorem reaches_cons (hv : ∀ p ≤ buf.len, At buf p v → YieldsUnless .nestingLimit
      (readPiece buf (validateDoc buf (k + 1) checkDupes) piece) p () (p + v.length))
    (hw : Reaches buf checkDupes (.pieces k ps) w) :
    Reaches buf checkDupes (.pieces k (piece :: ps)) (v ++ w) := by
  intro p hp hat
  obtain ⟨hatv, hatw⟩ := at_append.mp hat
  rw [List.length_append, ← Nat.add_assoc]
  exact (hv p hp hatv).bind (hw _ (hatv.end_le hp) hatw)

/-- A piece without nested documents is read as it stands. -/
theorem reaches_flat {L : Unit → List UInt8 → Prop}
    (hread : Reads buf (readPiece buf (validateDoc buf (k + 1) checkDupes) piece) L) (hv : L () v)
    (hw : Reaches buf checkDupes (.pieces k ps) w) :
    Reaches buf checkDupes (.pieces k (piece :: ps)) (v ++ w) :=
  reaches_cons (fun p hp hat => .inl ((hread p hp _ _).mpr ⟨v, hv, hat, rfl⟩)) hw

theorem reads_size (doc : Walk DecodeError Unit) :
    Reads buf (readPiece buf doc .size) (fun _ v => ∃ n, n < 2 ^ 31 ∧ v = le32 n) :=
  (reads_length le_rfl fun _ _ _ => Reads.pure ()).congr fun _ v => by simp

theorem reaches_noElements : Reaches buf checkDupes (.elements k []) [] := by
  intro _ p hp hat docEnd fuel seen hend hfuel _
  obtain ⟨hbyte, -⟩ := at_cons.mp hat
  have hle : docEnd ≤ buf.len := hend ▸ hat.end_le hp
  obtain ⟨fuel, rfl⟩ : ∃ n, fuel = n + 1 := ⟨fuel - 1, by omega⟩
  simp only [List.length_nil, Nat.zero_add] at hend
  left
  rw [yields_elementLoop_succ hle]
  exact ⟨by omega, 0, hbyte, .inl ⟨rfl, hend⟩⟩

theorem reaches_element {keys : List String} {ty : UInt8} {key : String} {body : List UInt8}
    (hty : layout ty = some ps) (hkey : NulFree key) (hv : Reaches buf checkDupes (.pieces k ps) v)
    (hbody : Reaches buf checkDupes (.elements k keys) body) :
    Reaches buf checkDupes (.elements k (key :: keys)) (ty :: (utf8 key ++ 0 :: (v ++ body))) := by
  intro hk p hp hat docEnd fuel seen hend hfuel hfresh
  have hle : docEnd ≤ buf.len := by
    rw [← hend, ← List.length_singleton, ← List.length_append]
    exact hat.end_le hp
  simp only [List.cons_append, List.append_assoc] at hat
  obtain ⟨hbyte, hatkey, hatv, hatbody⟩ := at_element.mp hat
  obtain ⟨hnew, hfresh⟩ := fresh_cons_iff.mp hfresh
  have hmax := buf.len_lt_usizeMax.le
  have h0 : ty ≠ 0 := by
    rintro rfl
    cases layout_zero.symm.trans hty
  simp only [List.length_cons, List.length_append] at hend hfuel
  simp only [List.length_append, List.length_singleton] at hatv hatbody
  obtain ⟨fuel, rfl⟩ : ∃ n, fuel = n + 1 := ⟨fuel - 1, by omega⟩
  have hstart : p + 1 ≤ buf.len := by omega
  have hkeyed : p + 1 + ((utf8 key).length + 1) ≤ buf.len := by omega
  apply YieldsUnless.after ((yields_round p () p).mpr rfl)
  apply YieldsUnless.after ((yields_position p p p).mpr ⟨rfl, rfl⟩)
  rw [if_neg (by omega)]
  apply YieldsUnless.after ((yields_orPanic _ _ _ _).mpr ⟨hbyte, rfl⟩)
  apply YieldsUnless.after ((yields_advance 1 p () (p + 1)).mpr ⟨hstart.trans hmax, rfl⟩)
  rw [if_neg h0]
  apply YieldsUnless.after ((reads_readCstringStr _ hstart _ _).mpr
    ⟨_, ⟨hkey, rfl⟩, hatkey, rfl⟩)
  apply YieldsUnless.after ((yields_noteKey checkDupes seen key _ _ _).mpr ⟨hnew, rfl, rfl⟩)
  rw [List.length_append, List.length_singleton]
  -- the value is where the limit may be met
  have hvalue := hv _ hkeyed hatv
  rw [← nestedDoc_eq (fun d => validateDoc buf d checkDupes) hk] at hvalue
  have hpieces : validateValue buf (fun d => validateDoc buf d checkDupes) ty k =
      readPieces buf (nestedDoc (fun d => validateDoc buf d checkDupes) T k) ps := by
    rw [validateValue_eq_pieces, hty]
  rw [← hpieces] at hvalue
  apply hvalue.bind
  apply YieldsUnless.after ((yields_position _ _ _).mpr ⟨rfl, rfl⟩)
  rw [if_neg (by omega)]
  exact hbody hk _ (hatv.end_le hkeyed) hatbody docEnd fuel _ (by omega) (by omega) hfresh

theorem reaches_document {keys : List String} {body : List UInt8}
    (hbody : Reaches buf checkDupes (.elements k keys) body)
    (hkeys : checkDupes = true → keys.Nodup) (hsmall : body.length + 5 < 2 ^ 31) :
    Reaches buf checkDupes (.document k) (le32 (body.length + 5) ++ body ++ [0]) := by
  intro p hp hat
  rcases Nat.lt_or_ge maxNesting k with hk | hk
  · right
    rw [run_validateDoc_of_gt hk]
  · have hle := hat.end_le hp
    have hmax := buf.len_lt_usizeMax
    rw [List.append_assoc] at hat
    obtain ⟨hatlen, hatbody⟩ := at_append.mp hat
    simp only [List.length_append, length_le32, List.length_singleton] at hle hatbody ⊢
    have hread := ((yields_readI32_ge (by decide : (0 : ℤ) ≤ 5) hp _ _).mpr
      ⟨body.length + 5, by omega, hsmall, rfl, hatlen, rfl⟩).1
    have hsize : T.usizeOfI32 ((body.length + 5 : ℕ) : ℤ) = body.length + 5 := by
      rw [T.usizeOfI32_of_nonneg (by omega) (by omega), Int.toNat_natCast]
    have hadd : T.checkedAdd p (body.length + 5) = some (p + (body.length + 5)) :=
      Target.checkedAdd_eq_some_iff.mpr ⟨by omega, rfl⟩
    have hfresh : Fresh checkDupes [] keys := fun hc => ⟨hkeys hc, fun _ _ => List.not_mem_nil⟩
    rw [validateDoc_eq]
    apply YieldsUnless.call
    rw [if_neg (Nat.not_lt.mpr hk)]
    apply YieldsUnless.after ((yields_position p p p).mpr ⟨rfl, rfl⟩)
    apply YieldsUnless.after hread
    rw [if_neg (by omega), hsize, hadd]
    apply YieldsUnless.after ((yields_okOr _ _ _ _ _).mpr ⟨rfl, rfl⟩)
    rw [if_neg (by omega)]
    have hloop := hbody hk _ (by omega) hatbody (p + (body.length + 5))
      (p + (body.length + 5) - p) [] (by omega) (by omega) hfresh
    apply hloop.bind
    apply YieldsUnless.after ((yields_position _ _ _).mpr ⟨rfl, rfl⟩)
    rw [if_neg (not_not.mpr rfl)]
    exact .inl ((yields_pure _ _ _ _).mpr ⟨rfl, by omega⟩)

/-- Wherever a phrase of the grammar stands, its walk reads it or meets the nesting limit. -/
theorem reaches {R : Rules} (hkeys : ∀ ks, R.keys ks → checkDupes = true → ks.Nodup) {ph : Phrase}
    (h : Derives R ph v) : Reaches buf checkDupes ph v := by
  induction h with
  | document _ _ hks hsmall ih => exact reaches_document ih (hkeys _ hks) hsmall
  | noElements => exact reaches_noElements
  | element hty hkey _ _ _ ihv ihr => exact reaches_element hty hkey ihv ihr
  | noPieces => exact fun _ _ _ => .inl ((yields_pure _ _ _ _).mpr ⟨rfl, rfl⟩)
  | raw hl _ ih => exact reaches_flat (reads_skip _) hl ih
  | boolean hb _ ih => exact reaches_flat reads_readBoolean (by simpa using hb) ih
  | text hs _ ih => exact reaches_flat reads_readString ⟨_, hs, rfl⟩ ih
  | cstring hs _ ih => exact reaches_flat reads_readCstring ⟨_, hs, rfl⟩ ih
  | binary hs _ ih => exact reaches_flat reads_readBinary ⟨_, _, hs, rfl⟩ ih
  | size hs _ ih => exact reaches_flat (reads_size _) ⟨_, hs, rfl⟩ ih
  | nested _ _ ihd ihr => exact reaches_cons ihd ihr

/-- The grammar of `validate_doc` with a limit of its own. -/
def limitRules (checkDupes : Bool) (limit : ℕ) : Rules := { rules checkDupes with
  level := fun k => k ≤ limit }

theorem reaches_limit {limit : ℕ} {ph : Phrase} (h : Derives (limitRules checkDupes limit) ph v) :
    Reaches buf checkDupes ph v := reaches (fun _ hks => hks) h

theorem validateDoc_limit {p depth : ℕ} (hp : p ≤ buf.len) (hat : At buf p v)
    (h : ∃ limit, Doc (limitRules checkDupes limit) depth v) :
    (Yields (validateDoc buf depth checkDupes) p () (p + v.length) ↔
        Doc (limitRules checkDupes maxNesting) depth v) ∧
      (((validateDoc buf depth checkDupes).run p).out = .error (.error .nestingLimit) ↔
        ¬ Doc (limitRules checkDupes maxNesting) depth v) := by
  obtain ⟨limit, h⟩ := h
  have hreach : YieldsUnless .nestingLimit (validateDoc buf depth checkDupes) p ()
      (p + v.length) := reaches_limit h p hp hat
  have haccept : Yields (validateDoc buf depth checkDupes) p () (p + v.length) ↔
      Doc (limitRules checkDupes maxNesting) depth v := by
    rw [reads_validateDoc depth checkDupes p hp]
    constructor
    · intro hyields
      obtain ⟨w, hw, hatw, hlen⟩ := hyields
      rwa [hatw.eq_of_length hat (by omega)] at hw
    · intro hv
      exact ⟨v, hv, hat, rfl⟩
  refine ⟨haccept, ?_⟩
  rw [← haccept]
  constructor
  · intro herror hyields
    rw [hyields.1] at herror
    cases herror
  · intro hnot
    exact hreach.resolve_left hnot

theorem validate_limit {b : Bytes T} (h : ∃ limit, Doc (limitRules true limit) 0 b.data) :
    (validate b = .ok () ↔ Doc (limitRules true maxNesting) 0 b.data) ∧
      (validate b = .error (.error .nestingLimit) ↔
        ¬ Doc (limitRules true maxNesting) 0 b.data) := by
  have haccept : validate b = .ok () ↔ Doc (limitRules true maxNesting) 0 b.data :=
    (validate_ok_iff_yields b).trans (yields_validateDoc_full b 0 true)
  refine ⟨haccept, ?_⟩
  constructor
  · intro herror hdoc
    rw [haccept.mpr hdoc] at herror
    cases herror
  · intro hnot
    exact validate_of_error
      ((validateDoc_limit (Nat.zero_le _) List.prefix_rfl h).2.mpr hnot)

/-- Too deep a document is only too deep: where a document of the grammar stands that respects
some limit of nesting, the walk accepts it if it respects the limit of the validator, and reports
that limit otherwise. So does the entry point. -/
theorem nesting_limit_exact (T : Target) :
    (∀ (buf : Bytes T) (depth : ℕ) (checkDupes : Bool), ∀ p ≤ buf.len, ∀ d, At buf p d →
      (∃ limit, Doc (limitRules checkDupes limit) depth d) →
      (Yields (validateDoc buf depth checkDupes) p () (p + d.length) ↔
        Doc (limitRules checkDupes maxNesting) depth d) ∧
      (((validateDoc buf depth checkDupes).run p).out = .error (.error .nestingLimit) ↔
        ¬ Doc (limitRules checkDupes maxNesting) depth d)) ∧
    ∀ b : Bytes T, (∃ limit, Doc (limitRules true limit) 0 b.data) →
      (validate b = .ok () ↔ Doc (limitRules true maxNesting) 0 b.data) ∧
      (validate b = .error (.error .nestingLimit) ↔
        ¬ Doc (limitRules true maxNesting) 0 b.data) :=
  ⟨fun _ _ _ _ hp _ hat h => validateDoc_limit hp hat h, fun _ h => validate_limit h⟩

/-- A document that holds a document that holds a document, down to an empty one. -/
def chain : ℕ → List UInt8
  | 0 => framed []
  | n + 1 => framed (0x03 :: (utf8 "" ++ 0 :: (chain n ++ [])))

theorem utf8_empty : utf8 "" = [] := by decide

theorem length_chain (n : ℕ) : (chain n).length = 7 * n + 5 := by
  induction n with
  | zero => rfl
  | succ n ih =>
    rw [chain, length_framed, utf8_empty]
    simp only [List.nil_append, List.append_nil, List.length_cons, ih]
    ring

theorem derives_pieces_document {R : Rules} {d : List UInt8} :
    Derives R (.pieces k [.document]) d ↔ Doc R (k + 1) d := by
  rw [derives_pieces_cons]
  constructor
  · intro h
    obtain ⟨_, w, rfl, hdoc, hw⟩ := h
    rw [derives_pieces_nil.mp hw, List.append_nil]
    exact hdoc
  · intro h
    exact ⟨d, [], (List.append_nil d).symm, h, .noPieces⟩

/-- A chain is a document wherever its levels are allowed. -/
theorem doc_chain_iff {limit n : ℕ} (hn : 7 * n + 5 < 2 ^ 31) :
    Doc (limitRules true limit) k (chain n) ↔ k + n ≤ limit := by
  induction n generalizing limit k with
  | zero =>
    rw [chain, doc_framed_iff]
    constructor
    · intro h
      exact h.1
    · intro h
      exact ⟨h, by decide, [], fun _ => List.nodup_nil, .noElements⟩
  | succ n ih =>
    have hlen : (0x03 :: (utf8 "" ++ 0 :: (chain n ++ []))).length + 5 = 7 * (n + 1) + 5 := by
      rw [← length_framed, ← chain, length_chain]
    rw [chain, doc_framed_iff, hlen]
    constructor
    · intro h
      obtain ⟨-, -, keys, -, hbody⟩ := h
      have hunlimited : Doc (limitRules true (k + 1 + n)) (k + 1) (chain n) :=
        (ih (by omega)).mpr (Nat.le_refl _)
      obtain ⟨-, -, hvalue, -, -⟩ := hbody.element_inv (by decide) rfl
        (derives_pieces_document.mpr hunlimited)
      have hle := (ih (by omega)).mp (derives_pieces_document.mp hvalue)
      omega
    · intro h
      have hdoc : Doc (limitRules true limit) (k + 1) (chain n) := (ih (by omega)).mpr (by omega)
      exact ⟨(Nat.le_add_right k _).trans h, hn, [""], fun _ => List.nodup_cons.mpr
        ⟨List.not_mem_nil, List.nodup_nil⟩, .element rfl (by decide)
          (derives_pieces_document.mpr hdoc) trivial .noElements⟩

theorem length_deepChain (T : Target) : (chain (maxNesting + 1)).length ≤ T.isizeMax := by
  have hmax := T.i32_le_isizeMax
  rw [length_chain, maxNesting]
  omega

/-- The chain that is one level too deep. -/
def deepChain (T : Target) : Bytes T := ⟨chain (maxNesting + 1), length_deepChain T⟩

theorem validate_deepChain (T : Target) :
    validate (deepChain T) = .error (.error .nestingLimit) := by
  have hn : 7 * (maxNesting + 1) + 5 < 2 ^ 31 := by decide
  apply (validate_limit ⟨maxNesting + 1, (doc_chain_iff hn).mpr (by omega)⟩).2.mpr
  intro hdoc
  have hle := (doc_chain_iff hn).mp hdoc
  omega

/-- The same chain behind a stray byte. -/
def shiftedChain : Bytes .bits64 := ⟨0xFF :: chain (maxNesting + 1), by
  rw [List.length_cons, length_chain]
  decide⟩

theorem nesting_limit_exact_deepChain :
    ((validateDoc shiftedChain 0 true).run 1).out = .error (.error .nestingLimit) ∧
      validate (deepChain .bits64) = .error (.error .nestingLimit) := by
  have hn : 7 * (maxNesting + 1) + 5 < 2 ^ 31 := by decide
  have hdoc : Doc (limitRules true (maxNesting + 1)) 0 (chain (maxNesting + 1)) :=
    (doc_chain_iff hn).mpr (by omega)
  have hdeep : ¬ Doc (limitRules true maxNesting) 0 (chain (maxNesting + 1)) := by
    rw [doc_chain_iff hn]
    omega
  have hdrop : shiftedChain.data.drop 1 = chain (maxNesting + 1) := by
    rw [shiftedChain, List.drop_succ_cons, List.drop_zero]
  have hat : At shiftedChain 1 (chain (maxNesting + 1)) := ⟨[], hdrop ▸ List.append_nil _⟩
  have hp : 1 ≤ shiftedChain.len := by
    rw [Bytes.len, shiftedChain, List.length_cons]
    exact Nat.le_add_left 1 _
  obtain ⟨hwalk, hentry⟩ := nesting_limit_exact .bits64
  exact ⟨(hwalk shiftedChain 0 true 1 hp _ hat ⟨_, hdoc⟩).2.mpr hdeep,
    (hentry (deepChain .bits64) ⟨_, hdoc⟩).2.mpr hdeep⟩

theorem validate_ne_badDecimal128 (b : Bytes T) : validate b ≠ .error (.error .badDecimal128) := by
  intro hv
  cases h : ((validateDoc b 0 true).run 0).out with
  | error e =>
    rw [validate_of_error h] at hv
    cases hv
    exact avoids_validateDocAt (.inr rfl) _ _ _ h
  | ok u =>
    rcases validate_of_ok h with hok | htrailing
    · rw [hok] at hv
      cases hv
    · rw [htrailing] at hv
      cases hv

/-- A short byte string that the validator answers with the error, where there is one. -/
def reportedBytes : DecodeError → List UInt8
  | .truncated => []
  | .lengthMismatch => [4, 0, 0, 0]
  | .trailingBytes => [5, 0, 0, 0, 0, 0]
  | .invalidType => [8, 0, 0, 0, 0x20, 0x61, 0, 0]
  | .badCstring => [6, 0, 0, 0, 0x0A, 0x61]
  | .badUtf8 => [8, 0, 0, 0, 0x0A, 0xFF, 0, 0]
  | .duplicateKey => [11, 0, 0, 0, 0x0A, 0x61, 0, 0x0A, 0x61, 0, 0]
  | .badSubtype => [13, 0, 0, 0, 0x05, 0x61, 0, 0xFF, 0xFF, 0xFF, 0xFF, 0, 0]
  | .nestingLimit | .badDecimal128 => []

theorem length_reportedBytes (e : DecodeError) : (reportedBytes e).length ≤ T.isizeMax := by
  have hmax := T.i32_le_isizeMax
  have hlen : (reportedBytes e).length ≤ 13 := by cases e <;> decide
  omega

theorem validate_reportedBytes {e : DecodeError} (hlimit : e ≠ .nestingLimit)
    (hdecimal : e ≠ .badDecimal128) :
    validate (⟨reportedBytes e, length_reportedBytes e⟩ : Bytes T) = .error (.error e) := by
  cases e with
  | nestingLimit => exact absurd rfl hlimit
  | badDecimal128 => exact absurd rfl hdecimal
  | _ => cases T <;> decide +kernel

/-- The diagnosis names nine kinds: each error but one is the verdict on some byte string, on
every target, and a malformed Decimal128 is the verdict on none. -/
theorem well_formed_kinds (T : Target) (e : DecodeError) :
    (∃ (b : Bytes T) (w : WellFormed), wellFormed b = .ok w ∧ w.kind = some e.kind) ↔
      e ≠ .badDecimal128 := by
  constructor
  · rintro ⟨b, w, hw, hkind⟩ rfl
    have hne := validate_ne_badDecimal128 b
    rw [wellFormed] at hw
    cases hv : validate b with
    | ok u =>
      rw [hv] at hw
      cases hw
      cases hkind
    | error r =>
      rw [hv] at hw hne
      cases r with
      | error e =>
        cases hw
        exact hne (congrArg (Except.error ∘ Stop.error)
          (DecodeError.kind_injective (Option.some.inj hkind)))
      | panic => cases hw
      | fuel => cases hw
  · intro he
    have hreport {b : Bytes T} (hb : validate b = .error (.error e)) :
        wellFormed b = .ok ⟨false, some e.message, some e.kind⟩ := by
      rw [wellFormed, hb]
    by_cases hlimit : e = .nestingLimit
    · obtain rfl := hlimit
      exact ⟨_, _, hreport (validate_deepChain T), rfl⟩
    · exact ⟨_, _, hreport (validate_reportedBytes hlimit he), rfl⟩

end VgiBson.NestingLimit
