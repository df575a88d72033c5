import Mathlib.Algebra.Order.Ring.Int
import C2Hat.Lib.CString

/-!
# Decimal texts

What `%d` makes of an `int`, and what `atoi` makes of a text.  The digits of a number are those
of `Nat.toDigits`.

## Main definitions

* `decimal` — the text of a number.
* `strtol`, `atoi` — the number at the front of a text.

## Main results

* `decimal_injective` — a text is the text of one number.
* `length_decimal_le_iff` — the numbers whose texts have a given length at most.
-/

namespace Clib

/-- A character of a text. -/
def charByte (c : Char) : UInt8 := UInt8.ofNat c.toNat

/-- The signs. -/
abbrev minus : UInt8 := 45
abbrev plus : UInt8 := 43

/-- The digits of a natural number. -/
def digits (n : ℕ) : Bytes := (Nat.toDigits 10 n).map charByte

/-- The text `%d` makes of an integer. -/
def decimal (i : ℤ) : Bytes := if i < 0 then minus :: digits i.natAbs else digits i.natAbs

/-- `isdigit`. -/
def isDigit (c : UInt8) : Bool := decide (48 ≤ c ∧ c ≤ 57)

/-- `isspace`, for the characters of ASCII. -/
def isSpace (c : UInt8) : Bool := c == 32 || decide (9 ≤ c ∧ c ≤ 13)

/-- The number that digits stand for. -/
def ofDigits (s : Bytes) : ℕ := s.foldl (fun n c => 10 * n + (c.toNat - 48)) 0

/-- `strtol(s, NULL, 10)` for a `long` of 64 bits: blanks, a sign and digits, the number being
the nearest one there is. -/
def strtol (s : Bytes) : ℤ :=
  let number : ℤ :=
    match s.dropWhile isSpace with
    | [] => 0
    | c :: t =>
      if c = minus then -(ofDigits (t.takeWhile isDigit) : ℤ)
      else if c = plus then (ofDigits (t.takeWhile isDigit) : ℤ)
      else (ofDigits ((c :: t).takeWhile isDigit) : ℤ)
  max (-2 ^ 63) (min number (2 ^ 63 - 1))

/-- `atoi(s)`: `(int)strtol(s, NULL, 10)`. -/
def atoi (s : Bytes) : BitVec 32 := BitVec.ofInt 32 (strtol s)

/-- A number of 21 digits is `-1`. -/
example : atoi (ascii " 100000000000000000000") = BitVec.ofInt 32 (-1) := by decide

theorem charByte_of_isDigit {c : Char} (h : c.isDigit = true) :
    (charByte c).toNat = c.toNat ∧ 48 ≤ c.toNat ∧ c.toNat ≤ 57 := by
  rw [Char.isDigit_iff_toNat] at h
  have hlow : 48 ≤ c.toNat := h.1
  have hhigh : c.toNat ≤ 57 := h.2
  refine ⟨?_, hlow, hhigh⟩
  rw [charByte, UInt8.toNat_ofNat']
  exact Nat.mod_eq_of_lt (by omega)

theorem isDigit_of_mem_digits {n : ℕ} {c : UInt8} (hc : c ∈ digits n) : isDigit c = true := by
  obtain ⟨d, hd, rfl⟩ := List.mem_map.mp hc
  have hdigit : d.isDigit = true := Nat.isDigit_of_mem_toDigits (by decide) (by decide) hd
  obtain ⟨hval, hlow, hhigh⟩ := charByte_of_isDigit hdigit
  simp only [isDigit, UInt8.le_iff_toNat_le, decide_eq_true_eq, hval]
  exact ⟨hlow, hhigh⟩

theorem minus_not_mem_digits (n : ℕ) : minus ∉ digits n := by
  intro h
  exact absurd (isDigit_of_mem_digits h) (by decide)

theorem zero_not_mem_decimal (i : ℤ) : (0 : UInt8) ∉ decimal i := by
  intro h
  unfold decimal at h
  split at h
  · rcases List.mem_cons.mp h with h | h
    · exact absurd h (by decide)
    · exact absurd (isDigit_of_mem_digits h) (by decide)
  · exact absurd (isDigit_of_mem_digits h) (by decide)

/-- The digits of a number stand for it. -/
theorem ofDigits_digits (n : ℕ) : ofDigits (digits n) = n := by
  have hchars : ∀ (l : List Char) (m : ℕ), (∀ c ∈ l, c.isDigit = true) →
      (l.map charByte).foldl (fun n c => 10 * n + (c.toNat - 48)) m = Nat.ofDigitChars 10 l m := by
    intro l
    induction l with
    | nil => exact fun m _ => rfl
    | cons c l ih =>
      intro m hl
      rw [List.forall_mem_cons] at hl
      rw [List.map_cons, List.foldl_cons, Nat.ofDigitChars_cons, ih _ hl.2,
        (charByte_of_isDigit hl.1).1]
      rfl
  rw [ofDigits, digits, hchars _ 0 fun c hc => Nat.isDigit_of_mem_toDigits (by decide) (by decide) hc]
  exact Nat.ofDigitChars_ten_toDigits

theorem digits_injective {m n : ℕ} (h : digits m = digits n) : m = n := by
  rw [← ofDigits_digits m, h, ofDigits_digits]

/-- **A text is the text of one number.** -/
theorem decimal_injective {i j : ℤ} (h : decimal i = decimal j) : i = j := by
  have hsign : ∀ {k l : ℤ}, k < 0 → 0 ≤ l → decimal k ≠ decimal l := by
    intro k l hk hl heq
    rw [decimal, decimal, if_pos hk, if_neg (by omega)] at heq
    exact minus_not_mem_digits l.natAbs (heq ▸ List.mem_cons_self)
  rcases lt_or_ge i 0 with hi | hi
  · rcases lt_or_ge j 0 with hj | hj
    · rw [decimal, decimal, if_pos hi, if_pos hj] at h
      have := digits_injective (List.cons.inj h).2
      omega
    · exact absurd h (hsign hi hj)
  · rcases lt_or_ge j 0 with hj | hj
    · exact absurd h.symm (hsign hj hi)
    · rw [decimal, decimal, if_neg (by omega), if_neg (by omega)] at h
      have := digits_injective h
      omega

theorem length_digits_le_iff {n k : ℕ} (hk : 0 < k) : (digits n).length ≤ k ↔ n < 10 ^ k := by
  rw [digits, List.length_map]
  exact Nat.length_toDigits_le_iff (by decide) hk

/-- **How long the text of a number is.** -/
theorem length_decimal_le_iff {i : ℤ} {k : ℕ} (hk : 0 < k) :
    (decimal i).length ≤ k + 1 ↔ -(10 ^ k : ℤ) < i ∧ i < 10 ^ (k + 1) := by
  have hcast : ((10 ^ k : ℕ) : ℤ) = 10 ^ k := by push_cast; rfl
  have hpos : 0 < 10 ^ k := Nat.pow_pos (by decide)
  rw [pow_succ, ← hcast]
  unfold decimal
  split
  · next hi =>
    rw [List.length_cons, Nat.add_le_add_iff_right, length_digits_le_iff hk]
    omega
  · next hi =>
    rw [length_digits_le_iff (Nat.succ_pos k), pow_succ]
    omega

end Clib
