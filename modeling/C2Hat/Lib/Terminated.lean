import C2Hat.Lib.CString

/-!
# Terminated arrays

An array of characters of any type, with the functions that walk over it until they find the
terminator, and with the accesses at an index.  An access outside of the array is a fault, also
one that only tests a character.

## Main definitions

* `readAt`, `writeAt`, `memmove` — accesses to an array.
* `span` — how many of the first characters are accepted, as `strlen` and `strspn` count them.
* `WStr` — the value of a `wchar_t *`.

## Main results

* `span_append` — the walk ends at the first character that is not accepted, and goes no
  further.
* `readAt_append`, `writeAt_append`, `memmove_front` — accesses inside of an array.
-/

namespace Clib

variable {α : Type}

/-- `b[i]` as a value. -/
def readAt (b : List α) (i : ℤ) : Except Fault α :=
  if 0 ≤ i then
    match b[i.toNat]? with
    | some c => .ok c
    | none => .error .outOfBounds
  else .error .outOfBounds

/-- `b[i] = c`. -/
def writeAt (b : List α) (i : ℤ) (c : α) : Except Fault (List α) :=
  if 0 ≤ i ∧ i < b.length then .ok (b.set i.toNat c) else .error .outOfBounds

/-- `memmove(b + dst, b + src, n)`. -/
def memmove (b : List α) (dst src n : ℕ) : Except Fault (List α) :=
  if dst + n ≤ b.length ∧ src + n ≤ b.length then
    .ok (b.take dst ++ (b.drop src).take n ++ b.drop (dst + n))
  else .error .outOfBounds

/-- The number of characters in front of the first one that is not accepted. -/
def span (accept : α → Bool) : List α → Except Fault ℕ
  | [] => .error .outOfBounds
  | c :: b => if accept c then (span accept b).map (· + 1) else .ok 0

/-- `wchar_t`, which has 32 bits. -/
abbrev WChar := UInt32

/-- The value of a `wchar_t *`: the characters in front of the terminator. -/
@[ext] structure WStr where
  /-- The text, without its terminator. -/
  chars : List WChar
  /-- There is no terminator inside. -/
  nulFree : (0 : WChar) ∉ chars
  deriving DecidableEq

/-- Read a block as a wide string. -/
def WStr.ofBlock (b : List WChar) : WStr :=
  ⟨b.takeWhile (· != 0), fun h => by simpa using List.mem_takeWhile_imp h⟩

theorem WStr.chars_ofBlock_append {s : List WChar} (hs : (0 : WChar) ∉ s) (t : List WChar) :
    (ofBlock (s ++ 0 :: t)).chars = s := by
  show (s ++ 0 :: t).takeWhile (· != 0) = s
  have hall : ∀ c ∈ s, (c != 0) = true := by
    intro c hc
    have hne : c ≠ 0 := fun h => hs (h ▸ hc)
    simpa using hne
  rw [List.takeWhile_append_of_pos hall]
  simp

/-- **The walk ends** at the first character that is not accepted, whatever is behind it. -/
theorem span_append {accept : α → Bool} {s : List α} {c : α} (hs : ∀ x ∈ s, accept x = true)
    (hc : accept c = false) (rest : List α) : span accept (s ++ c :: rest) = .ok s.length := by
  induction s with
  | nil =>
    rw [List.nil_append, span, hc]
    rfl
  | cons x s ih =>
    rw [List.cons_append, span, hs x List.mem_cons_self,
      ih fun y hy => hs y (List.mem_cons_of_mem x hy)]
    rfl

theorem readAt_append (s : List α) (c : α) (rest : List α) :
    readAt (s ++ c :: rest) s.length = .ok c := by
  rw [readAt, if_pos (Int.natCast_nonneg _), Int.toNat_natCast, List.getElem?_append_right le_rfl,
    Nat.sub_self]
  rfl

theorem writeAt_append (s : List α) (c d : α) (rest : List α) :
    writeAt (s ++ c :: rest) s.length d = .ok (s ++ d :: rest) := by
  have hinside : (0 : ℤ) ≤ s.length ∧ (s.length : ℤ) < (s ++ c :: rest).length := by
    rw [List.length_append, List.length_cons]
    omega
  rw [writeAt, if_pos hinside, Int.toNat_natCast, List.set_append_right _ _ le_rfl, Nat.sub_self]
  rfl

/-- A part of an array that is moved to the front, over what is there. -/
theorem memmove_front (s t rest : List α) :
    memmove (s ++ t ++ rest) 0 s.length t.length =
      .ok (t ++ (s ++ t).drop t.length ++ rest) := by
  have hinside : 0 + t.length ≤ (s ++ t ++ rest).length ∧
      s.length + t.length ≤ (s ++ t ++ rest).length := by
    simp only [List.length_append]
    omega
  have hmoved : ((s ++ t ++ rest).drop s.length).take t.length = t := by
    rw [List.append_assoc, List.drop_left, List.take_left]
  have hkept : (s ++ t ++ rest).drop (0 + t.length) = (s ++ t).drop t.length ++ rest := by
    rw [Nat.zero_add]
    refine List.drop_append_of_le_length ?_
    rw [List.length_append]
    omega
  rw [memmove, if_pos hinside, hmoved, hkept, List.take_zero, List.nil_append, List.append_assoc]

end Clib
