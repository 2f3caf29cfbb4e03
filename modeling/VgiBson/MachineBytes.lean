import Mathlib.Data.List.Basic
import Mathlib.Data.Nat.Notation
import Mathlib.Tactic.Ring

/-! # Machine words, byte strings and UTF-8 text

The parts of a systems language that a byte parser meets: the pointer width of the compilation
target, byte strings that fit in memory, little-endian 32-bit words and UTF-8 text. -/

namespace VgiBson.MachineBytes

/-- The pointer width of the compilation target. -/
inductive Target where
  | bits32
  | bits64
  deriving DecidableEq, Repr

def Target.usizeMax : Target → ℕ
  | .bits32 => 2 ^ 32 - 1
  | .bits64 => 2 ^ 64 - 1

def Target.isizeMax : Target → ℕ
  | .bits32 => 2 ^ 31 - 1
  | .bits64 => 2 ^ 63 - 1

theorem Target.isizeMax_lt_usizeMax (T : Target) : T.isizeMax < T.usizeMax := by
  cases T <;> simp [isizeMax, usizeMax]

theorem Target.two_mul_isizeMax (T : Target) : T.usizeMax = 2 * T.isizeMax + 1 := by
  cases T <;> simp [isizeMax, usizeMax]

theorem Target.i32_le_isizeMax (T : Target) : 2 ^ 31 - 1 ≤ T.isizeMax := by
  cases T <;> simp [isizeMax]

theorem Target.isizeMax_le_i64 (T : Target) : T.isizeMax ≤ 2 ^ 63 - 1 := by
  cases T <;> simp [isizeMax]

/-- `a.checked_add(b)` on `usize`. -/
def Target.checkedAdd (T : Target) (a b : ℕ) : Option ℕ :=
  if a + b ≤ T.usizeMax then some (a + b) else none

theorem Target.checkedAdd_eq_some_iff {T : Target} {a b c : ℕ} :
    T.checkedAdd a b = some c ↔ a + b ≤ T.usizeMax ∧ a + b = c := by
  simp only [checkedAdd]
  split <;> simp_all

/-- `i as usize` for an `i32`: sign extension, then reduction to the pointer width. -/
def Target.usizeOfI32 (T : Target) (i : ℤ) : ℕ := (i % (T.usizeMax + 1)).toNat

theorem Target.usizeOfI32_of_nonneg (T : Target) {i : ℤ} (h : 0 ≤ i) (hi : i < 2 ^ 31) :
    T.usizeOfI32 i = i.toNat := by
  have hm := T.two_mul_isizeMax
  have hl := T.i32_le_isizeMax
  rw [usizeOfI32, Int.emod_eq_of_lt h (by omega)]

/-- A slice or vector of bytes: no allocation is longer than `isize::MAX`. -/
@[ext] structure Bytes (T : Target) where
  data : List UInt8
  fits : data.length ≤ T.isizeMax
  deriving DecidableEq, Repr

namespace Bytes

variable {T : Target}

def len (b : Bytes T) : ℕ := b.data.length

theorem len_lt_usizeMax (b : Bytes T) : b.len < T.usizeMax :=
  b.fits.trans_lt T.isizeMax_lt_usizeMax

def empty : Bytes T := ⟨[], Nat.zero_le _⟩

def sub (b : Bytes T) (lo hi : ℕ) : Bytes T :=
  ⟨(b.data.drop lo).take (hi - lo), by
    have := b.fits
    simp only [List.length_take, List.length_drop]
    omega⟩

@[simp] theorem data_sub (b : Bytes T) (lo hi : ℕ) :
    (b.sub lo hi).data = (b.data.drop lo).take (hi - lo) := rfl

/-- `b.get(lo..hi)`. -/
def getRange (b : Bytes T) (lo hi : ℕ) : Option (Bytes T) :=
  if lo ≤ hi ∧ hi ≤ b.len then some (b.sub lo hi) else none

theorem getRange_eq_some_iff {b s : Bytes T} {lo hi : ℕ} :
    b.getRange lo hi = some s ↔ lo ≤ hi ∧ hi ≤ b.len ∧ b.sub lo hi = s := by
  simp only [getRange]
  split <;> simp_all

/-- `b.get(lo..)`. -/
def getFrom (b : Bytes T) (lo : ℕ) : Option (Bytes T) := b.getRange lo b.len

end Bytes

/-- The little-endian bytes of a 32-bit word. -/
def le32 (n : ℕ) : List UInt8 :=
  [UInt8.ofNat n, UInt8.ofNat (n / 0x100), UInt8.ofNat (n / 0x10000), UInt8.ofNat (n / 0x1000000)]

/-- The little-endian bytes of a 64-bit word. -/
def le64 (n : ℕ) : List UInt8 := le32 n ++ le32 (n / 0x100000000)

/-- `i32::from_le_bytes`. -/
def i32FromLeBytes (b₀ b₁ b₂ b₃ : UInt8) : ℤ :=
  let n := b₀.toNat + 0x100 * b₁.toNat + 0x10000 * b₂.toNat + 0x1000000 * b₃.toNat
  if n < 0x80000000 then n else n - 0x100000000

@[simp] theorem length_le32 (n : ℕ) : (le32 n).length = 4 := rfl
@[simp] theorem length_le64 (n : ℕ) : (le64 n).length = 8 := rfl

theorem exists_of_length_four {α : Type} {l : List α} (h : l.length = 4) :
    ∃ a b c d, l = [a, b, c, d] := by
  obtain ⟨a, l, rfl⟩ := List.exists_cons_of_length_eq_add_one h
  obtain ⟨b, c, d, rfl⟩ := List.length_eq_three.mp (Nat.succ.inj h)
  exact ⟨a, b, c, d, rfl⟩

theorem i32FromLeBytes_lt (b₀ b₁ b₂ b₃ : UInt8) : i32FromLeBytes b₀ b₁ b₂ b₃ < 2 ^ 31 := by
  have h₀ := b₀.toNat_lt
  have h₁ := b₁.toNat_lt
  have h₂ := b₂.toNat_lt
  have h₃ := b₃.toNat_lt
  simp only [i32FromLeBytes]
  split <;> omega

/-- Reading four bytes gives a nonnegative number exactly when they are its encoding. -/
theorem i32FromLeBytes_eq_iff (b₀ b₁ b₂ b₃ : UInt8) {n : ℕ} (hn : n < 2 ^ 31) :
    i32FromLeBytes b₀ b₁ b₂ b₃ = n ↔ [b₀, b₁, b₂, b₃] = le32 n := by
  have h₀ := b₀.toNat_lt
  have h₁ := b₁.toNat_lt
  have h₂ := b₂.toNat_lt
  have h₃ := b₃.toNat_lt
  simp only [i32FromLeBytes, le32, List.cons.injEq, and_true, ← UInt8.toNat_inj,
    UInt8.toNat_ofNat']
  constructor
  · intro h
    split at h <;> omega
  · intro h
    obtain ⟨e₀, e₁, e₂, e₃⟩ := h
    rw [e₀, e₁, e₂, e₃]
    split <;> omega

theorem le32_inj {n m : ℕ} (hn : n < 2 ^ 32) (hm : m < 2 ^ 32) (h : le32 n = le32 m) : n = m := by
  simp only [le32, List.cons.injEq, and_true, ← UInt8.toNat_inj, UInt8.toNat_ofNat'] at h
  omega

/-- The UTF-8 bytes of a string. -/
def utf8 (s : String) : List UInt8 := s.toByteArray.data.toList

/-- `std::str::from_utf8`. -/
def fromUtf8 (bytes : List UInt8) : Option String := String.fromUTF8? ⟨bytes.toArray⟩

theorem utf8_injective : Function.Injective utf8 := by
  intro s t h
  rw [← String.toByteArray_inj]
  exact ByteArray.ext (Array.toList_inj.mp h)

/-- Decoding succeeds with a text exactly on that text's bytes. -/
theorem fromUtf8_eq_some_iff (bytes : List UInt8) (s : String) :
    fromUtf8 bytes = some s ↔ utf8 s = bytes := by
  simp only [fromUtf8, String.fromUTF8?, utf8]
  constructor
  · intro h
    split at h
    · rw [← Option.some.inj h]
      rfl
    · cases h
  · intro h
    obtain rfl := h
    rw [dif_pos s.isValidUTF8]
    rfl

theorem utf8_ofList (l : List Char) : utf8 (String.ofList l) = l.flatMap String.utf8EncodeChar := by
  simp [utf8, String.toByteArray_ofList, List.utf8Encode]

/-- Only the character NUL is encoded with a zero byte. -/
theorem zero_mem_utf8EncodeChar {c : Char} (h : (0 : UInt8) ∈ String.utf8EncodeChar c) :
    c.val.toNat = 0 := by
  have hz (n : ℕ) : (0 : UInt8) = UInt8.ofNat n ↔ n % 256 = 0 := by
    rw [← UInt8.toNat_inj, UInt8.toNat_ofNat']
    simp [eq_comm]
  simp only [String.utf8EncodeChar] at h
  split at h
  · simp only [List.mem_singleton, hz] at h
    omega
  · split at h
    · simp only [List.mem_cons, List.not_mem_nil, or_false, hz] at h
      omega
    · split at h
      · simp only [List.mem_cons, List.not_mem_nil, or_false, hz] at h
        omega
      · simp only [List.mem_cons, List.not_mem_nil, or_false, hz] at h
        omega

/-- ASCII text has one byte for each character. -/
theorem utf8_ascii {l : List Char} (h : ∀ c ∈ l, c.toNat < 128) :
    utf8 (String.ofList l) = l.map fun c => UInt8.ofNat c.toNat := by
  rw [utf8_ofList]
  induction l with
  | nil => rfl
  | cons c l ih =>
    simp only [List.mem_cons, forall_eq_or_imp] at h
    have hc : c.val.toNat ≤ 0x7f := Nat.le_of_lt_succ h.1
    rw [List.flatMap_cons, ih h.2, List.map_cons, String.utf8EncodeChar, if_pos hc]
    rfl

example : utf8 "a\x00" = [0x61, 0x00] := by decide

end VgiBson.MachineBytes
