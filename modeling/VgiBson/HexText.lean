import Mathlib.Data.List.Lex
import Mathlib.Data.List.Nodup
import Mathlib.Data.List.TakeWhile
import VgiBson.MachineBytes

/-! # Trimmed and hexadecimal text

Trimming of white space, the two-digit text of bytes that is read in either case, and numbers whose
most significant byte comes first. -/

namespace VgiBson.HexText

open MachineBytes

/-- The characters with the property `White_Space`. -/
def isWhitespace (c : Char) : Bool :=
  let n := c.toNat
  (0x09 ≤ n && n ≤ 0x0D) || n = 0x20 || n = 0x85 || n = 0xA0 || n = 0x1680 ||
    (0x2000 ≤ n && n ≤ 0x200A) || n = 0x2028 || n = 0x2029 || n = 0x202F || n = 0x205F ||
    n = 0x3000

/-- White space has no upper case. -/
theorem toLower_of_isWhitespace {c : Char} (h : isWhitespace c = true) : c.toLower = c := by
  have hupper : ¬ (c.val ≥ 'A'.val ∧ c.val ≤ 'Z'.val) := by
    intro hc
    obtain ⟨hlo, hhi⟩ := hc
    rw [ge_iff_le, UInt32.le_iff_toNat_le] at hlo
    rw [UInt32.le_iff_toNat_le] at hhi
    simp only [isWhitespace, Bool.or_eq_true, Bool.and_eq_true, decide_eq_true_eq] at h
    have hA : 'A'.val.toNat = 65 := rfl
    have hZ : 'Z'.val.toNat = 90 := rfl
    have hc : c.toNat = c.val.toNat := rfl
    omega
  exact dif_neg hupper

/-- `s.trim()`. -/
def trim (s : String) : String :=
  String.ofList
    (((s.toList.dropWhile isWhitespace).reverse.dropWhile isWhitespace).reverse)

theorem dropWhile_of_forall {α : Type} {p : α → Bool} {l : List α} (h : ∀ a ∈ l, p a = false) :
    l.dropWhile p = l := by
  cases l with
  | nil => rfl
  | cons a l => rw [List.dropWhile_cons_of_neg (by simp [h a List.mem_cons_self])]

/-- Text without white space is left as it is. -/
theorem trim_of_forall {l : List Char} (h : ∀ c ∈ l, isWhitespace c = false) :
    trim (String.ofList l) = String.ofList l := by
  have hrev : ∀ c ∈ l.reverse, isWhitespace c = false := fun c hc => h c (List.mem_reverse.mp hc)
  rw [trim, String.toList_ofList, dropWhile_of_forall h, dropWhile_of_forall hrev,
    List.reverse_reverse]

theorem dropWhile_of_head {α : Type} {p : α → Bool} {a : α} {l : List α} (h : p a = false) :
    (a :: l).dropWhile p = a :: l := by
  rw [List.dropWhile_cons_of_neg (by simp [h])]

/-- White space around a text without white space is trimmed. -/
theorem trim_of_padded {s : String} {l w r : List Char} (hs : s.toList = l ++ (w ++ r))
    (hl : ∀ c ∈ l, isWhitespace c = true) (hr : ∀ c ∈ r, isWhitespace c = true)
    (hw : ∀ c ∈ w, isWhitespace c = false) : trim s = String.ofList w := by
  have hrev : ∀ c ∈ r.reverse, isWhitespace c = true := fun c hc => hr c (List.mem_reverse.mp hc)
  have hback : ((w ++ r).reverse.dropWhile isWhitespace).reverse = w := by
    have hwrev : ∀ c ∈ w.reverse, isWhitespace c = false :=
      fun c hc => hw c (List.mem_reverse.mp hc)
    rw [List.reverse_append, List.dropWhile_append_of_pos hrev, dropWhile_of_forall hwrev,
      List.reverse_reverse]
  rw [trim, hs, List.dropWhile_append_of_pos hl]
  cases w with
  | nil =>
    rw [List.nil_append, List.dropWhile_eq_nil_iff.mpr hr]
    rfl
  | cons c w =>
    rw [List.cons_append, dropWhile_of_head (hw c List.mem_cons_self), ← List.cons_append, hback]

/-- What trimming takes away is white space. -/
theorem exists_padding (s : String) : ∃ l r, s.toList = l ++ ((trim s).toList ++ r) ∧
    (∀ c ∈ l, isWhitespace c = true) ∧ ∀ c ∈ r, isWhitespace c = true := by
  have hfront := List.takeWhile_append_dropWhile (p := isWhitespace) (l := s.toList)
  have hback := List.takeWhile_append_dropWhile (p := isWhitespace)
    (l := (s.toList.dropWhile isWhitespace).reverse)
  refine ⟨s.toList.takeWhile isWhitespace,
    ((s.toList.dropWhile isWhitespace).reverse.takeWhile isWhitespace).reverse, ?_,
    fun c hc => List.mem_takeWhile_imp hc, fun c hc => ?_⟩
  · rw [trim, String.toList_ofList, ← List.reverse_append, hback, List.reverse_reverse]
    exact hfront.symm
  · exact List.mem_takeWhile_imp (List.mem_reverse.mp hc)

def digits : List Char := "0123456789abcdef".toList

def digit (n : ℕ) : Char := digits.getD n '0'

/-- The value of a digit of either case. -/
def value (c : Char) : Option ℕ := digits.findIdx? (· = c.toLower)

theorem digits_nodup : digits.Nodup := by decide

theorem length_digits : digits.length = 16 := by decide

theorem value_eq_some_iff {c : Char} {n : ℕ} : value c = some n ↔ n < 16 ∧ c.toLower = digit n := by
  rw [value, List.findIdx?_eq_some_iff_getElem]
  have hdigit (h : n < digits.length) : digit n = digits[n] := by
    rw [digit, List.getD_eq_getElem?_getD, List.getElem?_eq_getElem h, Option.getD_some]
  constructor
  · intro h
    obtain ⟨hn, hc, -⟩ := h
    rw [hdigit hn]
    exact ⟨length_digits ▸ hn, (of_decide_eq_true hc).symm⟩
  · intro h
    obtain ⟨hn, hc⟩ := h
    have hn' : n < digits.length := length_digits.symm ▸ hn
    rw [hdigit hn'] at hc
    refine ⟨hn', decide_eq_true hc.symm, ?_⟩
    intro j hj heq
    have hinj := digits_nodup.getElem_inj_iff.mp ((of_decide_eq_true heq).trans hc)
    omega

/-- Each byte as two digits. -/
def encode (bs : List UInt8) : List Char :=
  bs.flatMap fun b => [digit (b.toNat / 16), digit (b.toNat % 16)]

def decode : List Char → Option (List UInt8)
  | [] => some []
  | [_] => none
  | a :: b :: cs => do
    let x ← value a
    let y ← value b
    let bs ← decode cs
    pure (UInt8.ofNat (16 * x + y) :: bs)

theorem encode_cons (b : UInt8) (bs : List UInt8) :
    encode (b :: bs) = [digit (b.toNat / 16), digit (b.toNat % 16)] ++ encode bs :=
  List.flatMap_cons

theorem length_encode (bs : List UInt8) : (encode bs).length = 2 * bs.length := by
  induction bs with
  | nil => rfl
  | cons b bs ih =>
    rw [encode_cons, List.length_append, ih, List.length_cons]
    simp only [List.length_cons, List.length_nil]
    omega

/-- What every digit has, every character of the encoding has. -/
theorem forall_mem_encode {p : Char → Prop} (h : ∀ n < 16, p (digit n)) (bs : List UInt8) :
    ∀ c ∈ encode bs, p c := by
  intro c hc
  obtain ⟨b, -, hc⟩ := List.mem_flatMap.mp hc
  have hb := b.toNat_lt
  simp only [List.mem_cons, List.not_mem_nil, or_false] at hc
  rcases hc with rfl | rfl
  · exact h _ (by omega)
  · exact h _ (by omega)

theorem digit_lower : ∀ n < 16, (digit n).toLower = digit n := by decide

theorem digit_ascii : ∀ n < 16, (digit n).toNat < 128 := by decide

theorem digit_not_whitespace : ∀ n < 16, isWhitespace (digit n) = false := by decide

theorem map_toLower_encode (bs : List UInt8) : (encode bs).map Char.toLower = encode bs :=
  (List.map_congr_left (forall_mem_encode digit_lower bs)).trans (List.map_id _)

/-- Text is read back as bytes when it is their encoding in some mixture of cases. -/
theorem decode_eq_some_iff {cs : List Char} {bs : List UInt8} :
    decode cs = some bs ↔ cs.map Char.toLower = encode bs := by
  induction cs using decode.induct generalizing bs with
  | case1 =>
    cases bs with
    | nil => simp [decode, encode]
    | cons b bs => simp [decode, encode]
  | case2 c =>
    cases bs with
    | nil => simp [decode, encode]
    | cons b bs => simp [decode, encode]
  | case3 a b cs ih =>
    simp only [decode, Option.bind_eq_bind, Option.bind_eq_some_iff, value_eq_some_iff, ih,
      List.map_cons]
    constructor
    · intro h
      obtain ⟨x, ⟨hx, ha⟩, y, ⟨hy, hb⟩, bs', hbs, h⟩ := h
      obtain rfl := Option.some.inj h
      have hbyte : (UInt8.ofNat (16 * x + y)).toNat = 16 * x + y := by
        rw [UInt8.toNat_ofNat']
        omega
      have hhigh : (16 * x + y) / 16 = x := by omega
      have hlow : (16 * x + y) % 16 = y := by omega
      rw [encode_cons, hbyte, hhigh, hlow, ha, hb, hbs]
      rfl
    · intro h
      cases bs with
      | nil => cases h
      | cons byte bs =>
        have hbyte := byte.toNat_lt
        obtain ⟨ha, h⟩ := List.cons.inj h
        obtain ⟨hb, h⟩ := List.cons.inj h
        refine ⟨_, ⟨by omega, ha⟩, _, ⟨by omega, hb⟩, bs, h, ?_⟩
        have hsum : 16 * (byte.toNat / 16) + byte.toNat % 16 = byte.toNat := by omega
        rw [hsum, UInt8.ofNat_toNat]
        rfl

theorem decode_encode (bs : List UInt8) : decode (encode bs) = some bs :=
  decode_eq_some_iff.mpr (map_toLower_encode bs)

/-- Text is read when it has an even number of digits and nothing else. -/
theorem exists_decode_iff {cs : List Char} {n : ℕ} :
    (∃ bs, decode cs = some bs ∧ bs.length = n) ↔
      cs.length = 2 * n ∧ ∀ c ∈ cs, ∃ x, value c = some x := by
  induction cs using decode.induct generalizing n with
  | case1 => simp [decode, eq_comm]
  | case2 c =>
    constructor
    · intro h
      obtain ⟨bs, h, -⟩ := h
      cases h
    · intro h
      have hlen := h.1
      simp only [List.length_singleton] at hlen
      omega
  | case3 a b cs ih =>
    simp only [decode, Option.bind_eq_bind, Option.bind_eq_some_iff, List.mem_cons,
      forall_eq_or_imp, List.length_cons]
    constructor
    · intro h
      obtain ⟨bs, ⟨x, hx, y, hy, bs', hbs, h⟩, hlen⟩ := h
      obtain rfl := Option.some.inj h
      obtain ⟨hcs, hall⟩ := ih.mp ⟨bs', hbs, rfl⟩
      rw [List.length_cons] at hlen
      exact ⟨by omega, ⟨x, hx⟩, ⟨y, hy⟩, hall⟩
    · intro h
      obtain ⟨hlen, ⟨x, hx⟩, ⟨y, hy⟩, hall⟩ := h
      obtain ⟨m, rfl⟩ : ∃ m, n = m + 1 := ⟨n - 1, by omega⟩
      obtain ⟨bs, hbs, hm⟩ := (@ih m).mpr ⟨by omega, hall⟩
      exact ⟨_, ⟨x, hx, y, hy, bs, hbs, rfl⟩, congrArg Nat.succ hm⟩

def ofBytes (l : List UInt8) : ℕ := l.foldl (fun n b => 256 * n + b.toNat) 0

theorem foldl_ofBytes (l : List UInt8) (n : ℕ) :
    l.foldl (fun n b => 256 * n + b.toNat) n = n * 256 ^ l.length + ofBytes l := by
  induction l generalizing n with
  | nil => simp [ofBytes]
  | cons b l ih =>
    have hzero : ofBytes (b :: l) = b.toNat * 256 ^ l.length + ofBytes l := by
      rw [ofBytes, List.foldl_cons, ih, Nat.mul_zero, Nat.zero_add]
    rw [List.foldl_cons, ih, hzero, List.length_cons, pow_succ]
    ring

theorem ofBytes_cons (b : UInt8) (l : List UInt8) :
    ofBytes (b :: l) = b.toNat * 256 ^ l.length + ofBytes l := by
  rw [ofBytes, List.foldl_cons, foldl_ofBytes, Nat.mul_zero, Nat.zero_add]

theorem ofBytes_lt (l : List UInt8) : ofBytes l < 256 ^ l.length := by
  induction l with
  | nil => decide
  | cons b l ih =>
    have hb := b.toNat_lt
    have hmul : (b.toNat + 1) * 256 ^ l.length ≤ 256 * 256 ^ l.length :=
      Nat.mul_le_mul_right _ (by omega)
    rw [Nat.add_mul, Nat.one_mul] at hmul
    rw [ofBytes_cons, List.length_cons, pow_succ, Nat.mul_comm _ 256]
    omega

theorem ofBytes_append (l l' : List UInt8) :
    ofBytes (l ++ l') = ofBytes l * 256 ^ l'.length + ofBytes l' := by
  rw [ofBytes, List.foldl_append, foldl_ofBytes]
  rfl

/-- The leading bytes are the number without its last digits. -/
theorem ofBytes_take (l : List UInt8) (n : ℕ) :
    ofBytes (l.take n) = ofBytes l / 256 ^ (l.drop n).length := by
  have hsplit := ofBytes_append (l.take n) (l.drop n)
  rw [List.take_append_drop] at hsplit
  rw [hsplit, Nat.mul_comm, Nat.mul_add_div (Nat.pow_pos (by decide)),
    Nat.div_eq_of_lt (ofBytes_lt _), Nat.add_zero]

/-- Among numbers of one length, the order of the bytes is the order of the numbers. -/
theorem ofBytes_mono {l l' : List UInt8} (hlen : l.length = l'.length) (h : l ≤ l') :
    ofBytes l ≤ ofBytes l' := by
  induction l generalizing l' with
  | nil =>
    obtain rfl := List.length_eq_zero_iff.mp hlen.symm
    exact Nat.le_refl _
  | cons b l ih =>
    obtain ⟨b', l', rfl⟩ := List.exists_cons_of_length_eq_add_one hlen.symm
    have hlen' : l.length = l'.length := Nat.succ.inj hlen
    rw [ofBytes_cons, ofBytes_cons, hlen']
    rcases List.cons_le_cons_iff.mp h with hlt | ⟨rfl, hle⟩
    · have hl := ofBytes_lt l
      have hmul : (b.toNat + 1) * 256 ^ l'.length ≤ b'.toNat * 256 ^ l'.length :=
        Nat.mul_le_mul_right _ (UInt8.lt_iff_toNat_lt.mp hlt)
      rw [Nat.add_mul, Nat.one_mul] at hmul
      rw [hlen'] at hl
      omega
    · exact Nat.add_le_add_left (ih hlen' hle) _

end VgiBson.HexText
