import Mathlib.Algebra.Group.Nat.Defs
import Mathlib.Algebra.Order.Group.Int

/-!
# Conversions between integers

The conversions between `int` and `size_t`, which are those of the platforms the program is
built for: the value is reduced to 32 or 64 bits.

## Main results

* `asInt_asSize` — the way through `size_t` and back.
-/

namespace C2Hat

/-- A conversion to `int`. -/
def asInt (x : ℤ) : ℤ := x.bmod (2 ^ 32)

/-- A conversion to `size_t`. -/
def asSize (x : ℤ) : ℤ := x % 2 ^ 64

theorem asInt_of_lt {x : ℤ} (h : -2 ^ 31 ≤ x) (h' : x < 2 ^ 31) : asInt x = x := by
  rw [asInt, Int.bmod_def]
  split_ifs <;> omega

/-- A sum or difference that is an `int` survives the way through `size_t`. -/
theorem asInt_asSize {x : ℤ} (h : -2 ^ 31 ≤ x) (h' : x < 2 ^ 31) : asInt (asSize x) = x := by
  rw [asInt, asSize, Int.bmod_def]
  split_ifs <;> omega

theorem asSize_of_nonneg {x : ℤ} (h : 0 ≤ x) (h' : x < 2 ^ 31) : asSize x = x := by
  rw [asSize]
  omega

end C2Hat
