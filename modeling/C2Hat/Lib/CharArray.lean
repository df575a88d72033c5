import C2Hat.Lib.CString

/-!
# Character arrays

A `char` array of a fixed size, as a field of a structure or a local variable.  What is copied
into it replaces the bytes at its front; the others stay.

## Main definitions

* `CharArray n` — an array of `n` bytes, and the string `str` in it.
* `CharArray.memcpy`, `CharArray.snprintf` — writing to the front of an array.

## Main results

* `str_memcpy_terminated`, `str_memcpy_full` — the string after its terminator has been copied
  with it, or has not.
* `str_snprintf` — the string after `snprintf`.
-/

namespace Clib

/-- An array of `n` bytes. -/
@[ext] structure CharArray (n : ℕ) where
  /-- The bytes. -/
  bytes : Bytes
  /-- There are `n` of them. -/
  length_bytes : bytes.length = n
  deriving DecidableEq

namespace CharArray

variable {n : ℕ}

/-- `memset(a, 0, sizeof(a))`. -/
def zeros (n : ℕ) : CharArray n := ⟨List.replicate n 0, List.length_replicate⟩

/-- The string at the front of the array. -/
def str (a : CharArray n) : CStr := CStr.ofBlock a.bytes

/-- `memcpy(a, source, |source|)`; what does not fit is not written. -/
def memcpy (a : CharArray n) (source : Bytes) : CharArray n :=
  ⟨(source ++ a.bytes.drop source.length).take n, by
    have := a.length_bytes
    simp only [List.length_take, List.length_append, List.length_drop]
    omega⟩

/-- `snprintf(a, size, …)`, which writes a text or what fits of it, and a terminator. -/
def snprintf (a : CharArray n) (size : ℕ) (text : Bytes) : CharArray n :=
  a.memcpy (text.take (size - 1) ++ [0])

/-- The last byte of the array is a terminator. -/
def Closed (a : CharArray n) : Prop := a.bytes.getLast? = some 0

instance (a : CharArray n) : Decidable a.Closed := inferInstanceAs (Decidable (_ = _))

theorem bytes_memcpy (a : CharArray n) {source : Bytes} (h : source.length ≤ n) :
    (a.memcpy source).bytes = source ++ a.bytes.drop source.length := by
  refine List.take_of_length_le ?_
  have := a.length_bytes
  simp only [List.length_append, List.length_drop]
  omega

/-- A string that is copied with its terminator. -/
theorem str_memcpy_terminated (a : CharArray n) {s t : Bytes} (hs : (0 : UInt8) ∉ s)
    (hn : (s ++ 0 :: t).length ≤ n) : (a.memcpy (s ++ 0 :: t)).str.bytes = s := by
  rw [str, bytes_memcpy a hn, List.append_assoc, List.cons_append]
  exact CStr.bytes_ofBlock_append hs _

/-- A string that fills the array up to its last byte is ended by what is there. -/
theorem str_memcpy_full (a : CharArray n) {s : Bytes} (hs : (0 : UInt8) ∉ s)
    (hn : s.length + 1 = n) (ha : a.Closed) : (a.memcpy s).str.bytes = s := by
  have hdrop : a.bytes.drop s.length = [0] := by
    have hlen : a.bytes.length = s.length + 1 := by rw [a.length_bytes, hn]
    obtain ⟨t, ht⟩ := List.getLast?_eq_some_iff.mp ha
    rw [ht, List.length_append, List.length_singleton, Nat.add_right_cancel_iff] at hlen
    rw [ht, ← hlen, List.drop_left]
  rw [str, bytes_memcpy a (by omega), hdrop]
  exact CStr.bytes_ofBlock_append hs _

theorem str_snprintf (a : CharArray n) {size : ℕ} {text : Bytes} (htext : (0 : UInt8) ∉ text)
    (hpos : 0 < size) (hsize : size ≤ n) :
    (a.snprintf size text).str.bytes = text.take (size - 1) := by
  refine str_memcpy_terminated a (t := []) (fun h => htext (List.mem_of_mem_take h)) ?_
  simp only [List.length_append, List.length_take, List.length_singleton]
  omega

/-- A copy of all bytes but the last one into a cleared array. -/
theorem str_zeros_memcpy_take (a : CharArray n) (hn : 0 < n) :
    ((zeros n).memcpy (a.bytes.take (n - 1))).str.bytes = a.str.bytes.take (n - 1) := by
  have hlen : (a.bytes.take (n - 1)).length = n - 1 := by
    rw [List.length_take, a.length_bytes]
    omega
  have hbytes : ((zeros n).memcpy (a.bytes.take (n - 1))).bytes = a.bytes.take (n - 1) ++ [0] := by
    rw [bytes_memcpy _ (by omega), hlen, zeros, List.drop_replicate, Nat.sub_sub_self hn]
    rfl
  have htake : (a.bytes.take (n - 1) ++ [0]).takeWhile (· != 0) =
      (a.bytes.take (n - 1)).takeWhile (· != 0) := by
    rw [List.takeWhile_append]
    split_ifs with h
    · rw [(List.takeWhile_prefix _).eq_of_length h]
      simp
    · rfl
  rw [str, hbytes]
  exact htake.trans List.take_takeWhile.symm

end CharArray

end Clib
