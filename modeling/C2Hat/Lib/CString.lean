import Mathlib.Data.List.Basic
import Mathlib.Data.List.DropRight
import Mathlib.Data.List.TakeWhile

/-!
# C strings in memory blocks

A block of memory is a list of bytes and a C string is the part of a block in
front of its first NUL.  A pointer into a block is an offset, or the suffix of
the block that starts there, so pointer arithmetic is arithmetic on lengths.

Whatever the C standard leaves undefined is a `Fault`: a function that may run
into it returns `Except Fault`, and a fault is never a value the program goes on
with.

## Main definitions

* `CStr` — a NUL-free byte string, the value of a `char *`.
* `CStr.ofBlock` — reading a block as a C string.
* `memchr`, `strchr`, `strncmp`, `strlen` — the `<string.h>` functions.
* `Fault` — the undefined behaviours the models distinguish.
-/

namespace Clib

/-- A block of memory. -/
abbrev Bytes := List UInt8

/-- What an execution runs into when the standard gives it no meaning. -/
inductive Fault
  /-- A null pointer is followed. -/
  | nullDeref
  /-- A pointer to freed memory is followed. -/
  | useAfterFree
  /-- A byte outside of an object is read or written. -/
  | outOfBounds
  /-- A conversion specification has no argument, or is none at all. -/
  | badFormat
  /-- A negative length is passed as a `size_t`. -/
  | badLength
  deriving DecidableEq, Repr

/-- The bytes of an ASCII literal. -/
def ascii (s : String) : Bytes := s.toList.map fun c => UInt8.ofNat c.toNat

/-- The value of a `char *`: the bytes in front of the terminator. -/
@[ext] structure CStr where
  /-- The text, without its terminator. -/
  bytes : Bytes
  /-- There is no terminator inside. -/
  nulFree : (0 : UInt8) ∉ bytes
  deriving DecidableEq

namespace CStr

/-- The empty string. -/
def empty : CStr := ⟨[], by simp⟩

instance : Inhabited CStr := ⟨empty⟩

/-- Read a block as a C string: everything up to the first NUL. -/
def ofBlock (b : Bytes) : CStr :=
  ⟨b.takeWhile (· != 0), fun h => by simpa using List.mem_takeWhile_imp h⟩

@[simp] theorem bytes_empty : empty.bytes = [] := rfl

theorem bytes_ofBlock_of_nulFree {b : Bytes} (hb : (0 : UInt8) ∉ b) : (ofBlock b).bytes = b := by
  show b.takeWhile (· != 0) = b
  rw [List.takeWhile_eq_self_iff]
  intro c hc
  have : c ≠ 0 := fun h => hb (h ▸ hc)
  simpa using this

theorem bytes_ofBlock_append {s : Bytes} (hs : (0 : UInt8) ∉ s) (t : Bytes) :
    (ofBlock (s ++ 0 :: t)).bytes = s := by
  show (s ++ 0 :: t).takeWhile (· != 0) = s
  have hall : ∀ c ∈ s, (c != 0) = true := by
    intro c hc
    have : c ≠ 0 := fun h => hs (h ▸ hc)
    simpa using this
  rw [List.takeWhile_append_of_pos hall]
  simp

@[simp] theorem ofBlock_bytes (s : CStr) : ofBlock s.bytes = s :=
  CStr.ext (bytes_ofBlock_of_nulFree s.nulFree)

/-- An empty block, or one that starts with a NUL, holds the empty string. -/
theorem ofBlock_replicate_zero (n : ℕ) : ofBlock (List.replicate n 0) = empty := by
  apply CStr.ext
  cases n with
  | zero => rfl
  | succ n => simp [ofBlock, List.replicate_succ]

end CStr

/-- The C string of an ASCII literal. -/
def str (s : String) : CStr := CStr.ofBlock (ascii s)

/-- `memchr(b, c, |b|)`: the offset of the first `c` of the block. -/
def memchr (b : Bytes) (c : UInt8) : Option ℕ :=
  if c ∈ b then some (b.takeWhile (· != c)).length else none

/-- `strchr(s, c)` as an offset; the terminator counts as part of the string. -/
def strchr (s : Bytes) (c : UInt8) : Option ℕ :=
  if c = 0 then some s.length else memchr s c

/-- `strlen` of the string at the front of a block. -/
def strlen (b : Bytes) : ℕ := (CStr.ofBlock b).bytes.length

/-- Whether `strncmp(a, b, n)` is zero: the two strings agree on their first `n`
bytes, a shorter one being compared up to its terminator. -/
def strncmpEq (a b : CStr) (n : ℕ) : Bool := a.bytes.take n == b.bytes.take n

theorem memchr_eq_none {b : Bytes} {c : UInt8} (h : c ∉ b) : memchr b c = none := by
  simp [memchr, h]

/-- The first occurrence of `c` is the one with no `c` in front of it. -/
theorem memchr_append {s t : Bytes} {c : UInt8} (hs : c ∉ s) :
    memchr (s ++ c :: t) c = some s.length := by
  have hall : ∀ x ∈ s, (x != c) = true := by
    intro x hx
    have : x ≠ c := fun h => hs (h ▸ hx)
    simpa using this
  rw [memchr, if_pos (by simp), List.takeWhile_append_of_pos hall]
  simp

/-- A part without `c` is skipped. -/
theorem memchr_append_left {s : Bytes} {c : UInt8} (hs : c ∉ s) (t : Bytes) :
    memchr (s ++ t) c = (memchr t c).map (s.length + ·) := by
  by_cases hc : c ∈ t
  · obtain ⟨u, v, rfl, hu⟩ := List.eq_append_cons_of_mem hc
    rw [← List.append_assoc, memchr_append (by simp [hs, hu]), memchr_append hu]
    simp
  · rw [memchr_eq_none hc, memchr_eq_none (by simp [hs, hc])]
    rfl

/-- A successful `memchr` splits the block at the first occurrence. -/
theorem memchr_eq_some {b : Bytes} {c : UInt8} {n : ℕ} (h : memchr b c = some n) :
    ∃ s t, b = s ++ c :: t ∧ c ∉ s ∧ s.length = n := by
  by_cases hc : c ∈ b
  · obtain ⟨s, t, rfl, hs⟩ := List.eq_append_cons_of_mem hc
    rw [memchr_append hs] at h
    exact ⟨s, t, rfl, hs, Option.some.inj h⟩
  · rw [memchr_eq_none hc] at h
    cases h

theorem strlen_append {s : Bytes} (hs : (0 : UInt8) ∉ s) (t : Bytes) :
    strlen (s ++ 0 :: t) = s.length := by
  rw [strlen, CStr.bytes_ofBlock_append hs]

end Clib
