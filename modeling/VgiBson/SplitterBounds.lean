import VgiBson.SequenceSplitter

/-! # What splitting costs

The splitter makes one pass over the stream: each loop round of the validator is paid for with a
byte that no other round pays with, also in the last document, which is not returned. -/

namespace VgiBson.SplitterBounds

open MachineBytes CursorWalks CursorLanguages CursorBounds StructuralValidator ValidatorGrammar
  ValidatorBounds BsonGrammar PrefixCodes SequenceSplitter

variable {T : Target} {s : Bytes T} {fuel idx p : ℕ} {out : List (SeqDoc T)}

/-- The whole run of the loop of `split`. -/
def splitRun (s : Bytes T) : Report Empty (List (SeqDoc T)) :=
  (splitLoop s (s.len + 1) 0 []).run 0

/-- Where a document begins, it is checked and appended. -/
theorem run_splitLoop_document {w : List UInt8} (hw : Doc (rules false) 0 w) (hat : At s p w)
    (hp : p ≤ s.len) (hidx : idx ≤ p) : (splitLoop s (fuel + 1) idx out).run p =
      (attempt (validateOne s) >>= fun _ => splitLoop s fuel (idx + 1 : ℕ)
        (out ++ [⟨idx, s.sub p (p + w.length)⟩])).run p := by
  obtain ⟨ho, hpos⟩ := (reads_validateDoc 0 false p hp () _).mpr ⟨w, hw, hat, rfl⟩
  change ((validateOne s).run p).out = _ at ho
  change ((validateOne s).run p).pos = _ at hpos
  have h5 := hw.prefix_length.1
  have hle := hat.end_le hp
  have hfit := s.fits
  have hlt : p < s.len := by omega
  rw [splitLoop, run_position_bind, if_pos hlt]
  apply run_bind_congr
  intro result hresult
  obtain rfl : .ok () = result := by
    simpa only [attempt, ho, Except.ok.injEq] using hresult
  change (position >>= _ : Walk Empty _).run ((validateOne s).run p).pos = _
  rw [hpos, run_position_bind, if_neg (by omega), range,
    getRange_of_le (Nat.le_add_right p w.length) hle, orPanic_some, pure_bind,
    addI64_natCast (by simp only [Bytes.len] at hlt; omega : idx < T.isizeMax), pure_bind]
  change _ = (splitLoop s fuel _ _).run ((validateOne s).run p).pos
  rw [hpos]

/-- Where none begins, the loop ends, after one more check if there is a byte left. -/
theorem run_splitLoop_stuck (hp : p ≤ s.len)
    (h : ∀ w t, s.data.drop p = w ++ t → ¬ Doc (rules false) 0 w) :
    (splitLoop s (fuel + 1) idx out).run p =
      if p < s.len then (attempt (validateOne s) >>= fun _ => pure out).run p
      else ⟨.ok out, p, 0, 0⟩ := by
  rw [splitLoop, run_position_bind]
  split
  · obtain ⟨e, he⟩ := validateOne_rejects hp h
    apply run_bind_congr
    intro result hresult
    obtain rfl : .error e = result := by
      simpa only [attempt, he, Except.ok.injEq] using hresult
    rfl
  · rfl

/-- The first document of the cut of what is left stands at the position. -/
theorem next_document {d : Bytes T} {ds : List (Bytes T)} {rest : List UInt8}
    (h : Factors (Doc (rules false) 0) (s.data.drop p) (contents (d :: ds)) rest) :
    Doc (rules false) 0 d.data ∧ At s p d.data ∧
      Factors (Doc (rules false) 0) (s.data.drop (p + d.data.length)) (contents ds) rest := by
  obtain ⟨hd, t, ht, htail⟩ := h.of_cons
  refine ⟨hd, ⟨t, ht.symm⟩, ?_⟩
  rw [← List.drop_drop, ht, List.drop_left]
  exact htail

/-- Fuel for each document and the last check is enough. -/
theorem run_splitLoop_fuel {ds : List (Bytes T)} {rest : List UInt8} {n m : ℕ}
    (h : Factors (Doc (rules false) 0) (s.data.drop p) (contents ds) rest) (hp : p ≤ s.len)
    (hidx : idx ≤ p) (hn : ds.length < n) (hm : ds.length < m) :
    (splitLoop s n idx out).run p = (splitLoop s m idx out).run p := by
  obtain ⟨n, rfl⟩ : ∃ n', n = n' + 1 := ⟨n - 1, by omega⟩
  obtain ⟨m, rfl⟩ : ∃ m', m = m' + 1 := ⟨m - 1, by omega⟩
  induction ds generalizing n m idx p out with
  | nil =>
    have hrest : s.data.drop p = rest := h.whole
    have hstuck := hrest ▸ h.stuck
    rw [run_splitLoop_stuck hp hstuck, run_splitLoop_stuck hp hstuck]
  | cons d ds ih =>
    obtain ⟨hd, hat, htail⟩ := next_document h
    have hpos := ((reads_validateDoc 0 false p hp () _).mpr ⟨d.data, hd, hat, rfl⟩).2
    have h5 := hd.prefix_length.1
    rw [List.length_cons] at hn hm
    obtain ⟨n, rfl⟩ : ∃ n', n = n' + 1 := ⟨n - 1, by omega⟩
    obtain ⟨m, rfl⟩ : ∃ m', m = m' + 1 := ⟨m - 1, by omega⟩
    rw [run_splitLoop_document hd hat hp hidx, run_splitLoop_document hd hat hp hidx]
    apply run_bind_congr
    intro result _
    change (splitLoop s (n + 1) _ _).run ((validateOne s).run p).pos =
      (splitLoop s (m + 1) _ _).run ((validateOne s).run p).pos
    rw [validateOne, hpos]
    exact ih htail (hat.end_le hp) (by omega) _ (by omega) _ (by omega)

/-- A check whose error is caught. -/
theorem bounded_attempt (s : Bytes T) (p : ℕ) :
    BoundedAt s.len 0 (attempt (validateOne s) : Walk Empty _) p :=
  (bounded_validateDoc 0 false p).attempt

/-- The loop pays for all its rounds and gets past the documents. -/
theorem bounded_splitLoop {ds : List (Bytes T)} {rest : List UInt8}
    (h : Factors (Doc (rules false) 0) (s.data.drop p) (contents ds) rest) (hp : p ≤ s.len)
    (hidx : idx ≤ p) (hfuel : ds.length < fuel) :
    BoundedAt s.len 0 (splitLoop s fuel idx out) p ∧
      p + (contents ds).flatten.length ≤ ((splitLoop s fuel idx out).run p).pos := by
  obtain ⟨fuel, rfl⟩ : ∃ n, fuel = n + 1 := ⟨fuel - 1, by omega⟩
  induction ds generalizing fuel idx p out with
  | nil =>
    have hrest : s.data.drop p = rest := h.whole
    have hrun := @run_splitLoop_stuck T s fuel idx p out hp (hrest ▸ h.stuck)
    have hbound : BoundedAt s.len 0 (splitLoop s (fuel + 1) idx out) p := by
      split at hrun
      · exact ((bounded_attempt s p).bind_same fun _ _ => .pure out).congr hrun
      · exact .still (returned_ok out) hrun
    exact ⟨hbound, hbound.mono⟩
  | cons d ds ih =>
    obtain ⟨hd, hat, htail⟩ := next_document h
    obtain ⟨ho, hpos⟩ := (reads_validateDoc 0 false p hp () _).mpr ⟨d.data, hd, hat, rfl⟩
    have h5 := hd.prefix_length.1
    rw [List.length_cons] at hfuel
    obtain ⟨n, rfl⟩ : ∃ n, fuel = n + 1 := ⟨fuel - 1, by omega⟩
    obtain ⟨hbound, hpast⟩ := @ih (idx + 1) (p + d.data.length)
      (out ++ [⟨idx, s.sub p (p + d.data.length)⟩]) htail (hat.end_le hp) (by omega) n (by omega)
    have hrun := @run_splitLoop_document T s (n + 1) idx p out _ hd hat hp hidx
    constructor
    · refine BoundedAt.congr ((bounded_attempt s p).bind_same fun _ _ => ?_) hrun
      change BoundedAt s.len 0 _ ((validateOne s).run p).pos
      rw [validateOne, hpos]
      exact hbound
    · change ((validateOne s).run p).out = _ at ho
      have hout : ((attempt (validateOne s) : Walk Empty _).run p).out = .ok (.ok ()) := by
        simp only [attempt, ho]
      rw [hrun, run_bind, Report.andThen_ok hout]
      change _ ≤ ((splitLoop s (n + 1) _ _).run ((validateOne s).run p).pos).pos
      rw [validateOne, hpos, contents, List.map_cons, List.flatten_cons, List.length_append,
        ← Nat.add_assoc]
      exact hpast

theorem shallow_splitLoop (s : Bytes T) (fuel : ℕ) (idx : ℤ) (out : List (SeqDoc T)) :
    Shallow (maxNesting + 2) (splitLoop s fuel idx out) := by
  induction fuel generalizing idx out with
  | zero => exact (Shallow.stop _).of_zero
  | succ fuel ih =>
    have hone : Shallow (maxNesting + 2) (attempt (validateOne s) : Walk Empty _) :=
      (shallow_validateDocAt _ 0 (Nat.zero_le _)).attempt
    apply Shallow.position.of_zero.bind
    intro start
    apply Shallow.ite
    · apply hone.bind
      intro result
      cases result with
      | ok u =>
        apply Shallow.position.of_zero.bind
        intro pos
        apply (Shallow.pure out).of_zero.ite
        intro _
        exact (Shallow.orPanic _).of_zero.bind fun doc => (Shallow.orPanic _).of_zero.bind
          fun next => ih next _
      | error e => exact (Shallow.pure out).of_zero
    · exact fun _ => (Shallow.pure out).of_zero

/-- Documents are at least five bytes long. -/
theorem five_mul_length_le {ds : List (Bytes T)}
    (h : ∀ w ∈ contents ds, Doc (rules false) 0 w) :
    5 * ds.length ≤ (contents ds).flatten.length := by
  induction ds with
  | nil => exact Nat.zero_le _
  | cons d ds ih =>
    rw [contents, List.map_cons, List.forall_mem_cons] at h
    have h5 := h.1.prefix_length.1
    have hrest := ih h.2
    rw [contents, List.map_cons, List.flatten_cons, List.length_append, List.length_cons]
    rw [contents] at hrest
    omega

/-- Splitting is one pass: the loop runs once for each document that it returns and once more,
the validator's loops together make at most one round for each byte read, and no byte behind the
stream is read, whatever the stream holds. -/
theorem split_one_pass (T : Target) (s : Bytes T) : ∃ ds : List (Bytes T),
    (splitRun s).out = .ok (numbered 0 ds) ∧ split s = .ok (numbered 0 ds) ∧
      (∀ fuel, ds.length < fuel → (splitLoop s fuel 0 []).run 0 = splitRun s) ∧
      (splitRun s).rounds ≤ (splitRun s).pos ∧ (splitRun s).pos ≤ s.len ∧
      (splitRun s).height ≤ 258 ∧
      5 * ds.length ≤ (contents ds).flatten.length ∧
      (contents ds).flatten.length ≤ (splitRun s).pos := by
  obtain ⟨ds, rest, hds, hs⟩ := split_factors s
  have hfive := five_mul_length_le hds.words
  have hwhole := congrArg List.length hds.whole
  rw [List.length_append] at hwhole
  have hfuel : ds.length < s.len + 1 := by
    rw [Bytes.len]
    omega
  have hcut : Factors (Doc (rules false) 0) (s.data.drop 0) (contents ds) rest := hds
  obtain ⟨hbound, hpast⟩ := @bounded_splitLoop T s (s.len + 1) 0 0 [] ds rest hcut
    (Nat.zero_le _) (Nat.le_refl 0) hfuel
  rw [Nat.zero_add] at hpast
  have hpaid := hbound.paid
  rw [Nat.zero_add, Nat.add_zero] at hpaid
  refine ⟨ds, hs, hs, ?_, hpaid, hbound.inside (Nat.zero_le _), shallow_splitLoop s _ _ _ 0, hfive,
    hpast⟩
  intro fuel hlt
  exact run_splitLoop_fuel hcut (Nat.zero_le _) (Nat.le_refl 0) hlt hfuel

end VgiBson.SplitterBounds
