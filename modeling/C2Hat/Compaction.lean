import C2Hat.Receive

/-!
# Moving the leftover of a read

When a read filled the buffer and the last frame is cut off, `Server_receive` and
`Client_receive` move the beginning of that frame to the front of the array, clear what
is behind it, and read on.  `receivePrepare` has the outcome of this; here the branch is
taken apart into the bytes it writes, one by one, and compared with its purpose: the
leftover in front, the new bytes directly behind it, in all of the free part, and the two
of them as one run for `Message_get`.

The leftover is moved and the rest is cleared as it should be.  But the padding loop starts
one byte behind the array; the new bytes are read to one byte behind the leftover, where
the extraction then starts, too; and one byte less than there is room for is asked for.
Since the extraction starts behind the leftover, it is lost whatever is read.

## Main definitions

* `Region`, `compact` — the memory from the front of the array on, and the branch.
* `Compacts` — what the branch is for.

## Main results

* `receivePrepare_leftover` — the branch ends with the buffer of `receivePrepare`.
* `not_compacts` — **the branch never does what it is for.**
-/

namespace C2Hat

open Clib

/-- The memory from the front of `data` on, by offset, and the offsets written to. -/
structure Region where
  /-- The bytes. -/
  byte : ℕ → UInt8
  /-- The offsets, the last one first. -/
  written : List ℕ

namespace Region

/-- `*(data + i) = c`. -/
def store (m : Region) (i : ℕ) (c : UInt8) : Region where
  byte := Function.update m.byte i c
  written := i :: m.written

/-- `memcpy(data, data + p, n)`, taken to copy from the front on: the two ranges may
overlap, for which the function itself promises nothing. -/
def memcpy (p : ℕ) : ℕ → Region → Region
  | 0, m => m
  | n + 1, m =>
    let m' := memcpy p n m
    m'.store n (m'.byte (p + n))

/-- `for (size_t j = i; j >= low; j--) *(data + j) = 0`.  The loop has an end when `low`
is not zero. -/
def pad (low : ℕ) : ℕ → Region → Region
  | 0, m => m
  | i + 1, m => if low ≤ i + 1 then pad low i (m.store (i + 1) 0) else m

/-- The memory of a buffer; nothing has been written yet. -/
def ofBuffer (b : MessageBuffer) : Region := ⟨fun i => b.data.getD i 0, []⟩

/-- Bytes that were moved come from `p` bytes behind, the others are left alone. -/
theorem byte_memcpy {p : ℕ} (hp : 0 < p) (m : Region) (n i : ℕ) :
    (memcpy p n m).byte i = if i < n then m.byte (p + i) else m.byte i := by
  induction n generalizing i with
  | zero => rw [if_neg (Nat.not_lt_zero i)]; rfl
  | succ n ih =>
    show Function.update (memcpy p n m).byte n ((memcpy p n m).byte (p + n)) i = _
    rcases Nat.lt_trichotomy i n with hlt | rfl | hgt
    · rw [Function.update_of_ne (by omega), ih, if_pos hlt, if_pos (by omega)]
    · -- what is read has not been overwritten
      rw [Function.update_self, ih, if_neg (by omega), if_pos (by omega)]
    · rw [Function.update_of_ne (by omega), ih, if_neg (by omega), if_neg (by omega)]

theorem byte_pad {low : ℕ} (hlow : 0 < low) (m : Region) (i j : ℕ) :
    (pad low i m).byte j = if low ≤ j ∧ j ≤ i then 0 else m.byte j := by
  induction i generalizing m with
  | zero => rw [if_neg (by omega)]; rfl
  | succ i ih =>
    rw [pad]
    by_cases hi : low ≤ i + 1
    · rw [if_pos hi, ih]
      by_cases hj : j = i + 1
      · subst hj
        rw [if_neg (by omega), if_pos ⟨hi, le_rfl⟩]
        exact Function.update_self ..
      · by_cases hin : low ≤ j ∧ j ≤ i
        · rw [if_pos hin, if_pos (by omega)]
        · rw [if_neg hin, if_neg (by omega)]
          exact Function.update_of_ne hj ..
    · rw [if_neg hi, if_neg (by omega)]

/-- What was written stays written. -/
theorem written_subset_pad (low i : ℕ) (m : Region) : m.written ⊆ (pad low i m).written := by
  induction i generalizing m with
  | zero => exact List.Subset.refl _
  | succ i ih =>
    rw [pad]
    split
    · have hstored : m.written ⊆ (m.store (i + 1) 0).written := List.subset_cons_self ..
      exact List.Subset.trans hstored (ih _)
    · exact List.Subset.refl _

/-- The first offset of the loop is written to. -/
theorem mem_written_pad {low i : ℕ} (hlow : low ≤ i) (hi : 0 < i) (m : Region) :
    i ∈ (pad low i m).written := by
  obtain ⟨k, rfl⟩ := Nat.exists_eq_succ_of_ne_zero (Nat.ne_of_gt hi)
  rw [pad, if_pos hlow]
  exact written_subset_pad low k _ (List.mem_cons_self ..)

end Region

/-- The leftover branch up to the assignment of `start`: move, and pad. -/
def compact (b : MessageBuffer) (p : ℕ) : Region :=
  let length := kMessageBufferSize
  let remainingTextSize := length - p
  (Region.ofBuffer b |>.memcpy p remainingTextSize).pad remainingTextSize length

/-- When the leftover branch is taken. -/
structure Leftover (b : MessageBuffer) (p : ℕ) : Prop where
  /-- The leftover starts at `p`. -/
  start : b.start = some p
  pos : 0 < p
  lt : p < kMessageBufferSize
  /-- The last byte of the array is not a terminator. -/
  last : b.data.getD (kMessageBufferSize - 1) 0 ≠ 0

/-- The leftover is in front. -/
def Moves (b : MessageBuffer) (p : ℕ) : Prop :=
  ∀ i < kMessageBufferSize - p, (compact b p).byte i = b.data.getD (p + i) 0

/-- All behind the leftover is zero. -/
def Pads (b : MessageBuffer) (p : ℕ) : Prop :=
  ∀ i, kMessageBufferSize - p ≤ i → i < kMessageBufferSize → (compact b p).byte i = 0

/-- Nothing is written outside of the array. -/
def WritesInside (b : MessageBuffer) (p : ℕ) : Prop :=
  ∀ i ∈ (compact b p).written, i < kMessageBufferSize

/-- New bytes are read directly behind the leftover, into all of the free part. -/
def ReadsBehind (b : MessageBuffer) (p : ℕ) : Prop :=
  ∃ b', receivePrepare b = .ok (b', p) ∧ b'.start = some (kMessageBufferSize - p)

/-- Whatever is read, the next frame is looked for from the leftover on. -/
def Joins (b : MessageBuffer) (p : ℕ) : Prop :=
  ∀ b' n bytes, receivePrepare b = .ok (b', n) → bytes.length ≤ n →
    b.data.drop p ++ bytes <+: (b'.write (b'.start.getD 0) bytes).view

/-- What the leftover branch is for. -/
structure Compacts (b : MessageBuffer) (p : ℕ) : Prop where
  moves : Moves b p
  pads : Pads b p
  inside : WritesInside b p
  behind : ReadsBehind b p
  joins : Joins b p

section Leftover

variable {b : MessageBuffer} {p : ℕ}

/-- All bytes of the array when the branch has been taken. -/
theorem byte_compact (h : Leftover b p) {i : ℕ} (hi : i < kMessageBufferSize) :
    (compact b p).byte i = if i < kMessageBufferSize - p then b.data.getD (p + i) 0 else 0 := by
  have hlt := h.lt
  rw [compact, Region.byte_pad (by omega), Region.byte_memcpy h.pos]
  by_cases hmoved : i < kMessageBufferSize - p
  · rw [if_neg (by omega), if_pos hmoved, if_pos hmoved]
    rfl
  · rw [if_pos (by omega), if_neg hmoved]

/-- The padding loop starts behind the array. -/
theorem overrun_compact (h : Leftover b p) : kMessageBufferSize ∈ (compact b p).written :=
  Region.mem_written_pad (Nat.sub_le _ _) (lt_trans h.pos h.lt) _

/-- **The branch ends with the buffer of `receivePrepare`**: the same bytes, the start one
byte behind the leftover, and one byte less to be read than there is room for. -/
theorem receivePrepare_leftover (h : Leftover b p) :
    ∃ b', receivePrepare b = .ok (b', p - 1) ∧ b'.start = some (kMessageBufferSize - p + 1) ∧
      ∀ i < kMessageBufferSize, b'.data.getD i 0 = (compact b p).byte i := by
  have hlt := h.lt
  have hpos := h.pos
  have hbranch : b.start ≠ some 0 ∧ b.data.getD (kMessageBufferSize - 1) 0 ≠ 0 := by
    refine ⟨?_, h.last⟩
    rw [h.start, Ne, Option.some.injEq]
    omega
  have hlength : kMessageBufferSize - 1 - (kMessageBufferSize - p) = p - 1 := by omega
  have hprep : receivePrepare b = .ok (⟨(b.data.drop p).take (kMessageBufferSize - p) ++
      List.replicate (kMessageBufferSize - (kMessageBufferSize - p)) 0, b.length_leftover p,
      some (kMessageBufferSize - p + 1)⟩, p - 1) := by
    rw [h.start] at hbranch
    simp only [receivePrepare, h.start, if_pos hbranch, hlength]
  refine ⟨_, hprep, rfl, ?_⟩
  intro i hi
  have hlen : ((b.data.drop p).take (kMessageBufferSize - p)).length = kMessageBufferSize - p := by
    rw [List.length_take, List.length_drop, b.length_data, Nat.min_self]
  show List.getD ((b.data.drop p).take (kMessageBufferSize - p) ++
    List.replicate (kMessageBufferSize - (kMessageBufferSize - p)) 0) i 0 = _
  rw [byte_compact h hi, List.getD_eq_getElem?_getD, List.getD_eq_getElem?_getD]
  by_cases hmoved : i < kMessageBufferSize - p
  · rw [if_pos hmoved, List.getElem?_append_left (by omega), List.getElem?_take_of_lt hmoved,
      List.getElem?_drop]
  · rw [if_neg hmoved, List.getElem?_append_right (by omega), hlen,
      List.getElem?_replicate_of_lt (by omega), Option.getD_some]

/-- The leftover is not empty, and does not begin with zero bytes only. -/
theorem leftover_not_zeros (h : Leftover b p) (n : ℕ) :
    ¬ b.data.drop p <+: List.replicate n 0 := by
  intro hzeros
  have hlt := h.lt
  have hlen : (b.data.drop p).length = kMessageBufferSize - p := by
    rw [List.length_drop, b.length_data]
  have hmem : b.data.getD (kMessageBufferSize - 1) 0 ∈ b.data.drop p := by
    have hlast : kMessageBufferSize - 1 < b.data.length := by
      rw [b.length_data]
      omega
    rw [List.getD_eq_getElem?_getD, List.getElem?_eq_getElem hlast, Option.getD_some]
    refine List.mem_drop_iff_getElem.mpr ⟨kMessageBufferSize - 1 - p, by omega, ?_⟩
    congr 1
    omega
  exact h.last (List.eq_of_mem_replicate (hzeros.subset hmem))

/-- The next extraction starts behind the leftover: with nothing read it sees zero bytes
only. -/
theorem not_joins (h : Leftover b p) : ¬ Joins b p := by
  intro hjoins
  obtain ⟨b', hprep, hstart, -⟩ := receivePrepare_leftover h
  have hpos := h.pos
  have hlt := h.lt
  have hfit : b'.start.getD 0 + ([] : Bytes).length ≤ kMessageBufferSize := by
    rw [hstart, Option.getD_some, List.length_nil]
    omega
  have hview : (b'.write (b'.start.getD 0) []).view =
      List.replicate (kMessageBufferSize - b'.start.getD 0) 0 :=
    MessageBuffer.drop_data_write (receivePrepare_zero hprep).1 hfit
  have hprefix := hjoins b' (p - 1) [] hprep (Nat.zero_le _)
  rw [List.append_nil, hview] at hprefix
  exact leftover_not_zeros h _ hprefix

/-- The leftover is moved and the rest is cleared; all else fails. -/
theorem leftover_branch (h : Leftover b p) :
    Moves b p ∧ Pads b p ∧ ¬ WritesInside b p ∧ ¬ ReadsBehind b p ∧ ¬ Joins b p := by
  refine ⟨fun i hi => ?_, fun i hle hi => ?_, fun hinside => ?_, ?_, not_joins h⟩
  · rw [byte_compact h (by omega), if_pos hi]
  · rw [byte_compact h hi, if_neg (by omega)]
  · exact absurd (hinside _ (overrun_compact h)) (lt_irrefl _)
  · rintro ⟨b', hprep, -⟩
    obtain ⟨b'', hprep', -⟩ := receivePrepare_leftover h
    rw [hprep, Except.ok.injEq, Prod.mk.injEq] at hprep'
    have hpos := h.pos
    omega

/-- **The branch never does what it is for.** -/
theorem not_compacts (h : Leftover b p) : ¬ Compacts b p := by
  intro hcompacts
  obtain ⟨-, -, hinside, -⟩ := leftover_branch h
  exact hinside hcompacts.inside

end Leftover

/-- A buffer filled by a read, with a complete frame in front of one that is cut off, when
the first has been taken out. -/
def cutOff : MessageBuffer :=
  ⟨ascii "/ok" ++ 0 :: slash :: List.replicate 2043 97, by
    rw [List.length_append, List.length_cons, List.length_cons, List.length_replicate]; rfl,
    some 4⟩

theorem leftover_cutOff : Leftover cutOff 4 := ⟨rfl, by decide, by decide, by decide +kernel⟩

theorem not_compacts_of_cutOff : Leftover cutOff 4 ∧ ¬ Compacts cutOff 4 :=
  ⟨leftover_cutOff, not_compacts leftover_cutOff⟩

/-- `Message_get` stops at the frame that is cut off.  The branch then writes behind the
array, asks for three bytes and not four, and what is read is taken for the next frame. -/
theorem not_compacts_cutOff :
    (Message.get { cutOff with start := none }).map (fun r => (r.1, r.2.start)) =
      .ok (some (str "/ok"), some 4) ∧
    Message.get cutOff = .ok (none, cutOff) ∧
    2048 ∈ (compact cutOff 4).written ∧
    (receivePrepare cutOff).map (fun r => (r.1.start, r.2)) = .ok (some 2045, 3) ∧
    ¬ Compacts cutOff 4 := by
  refine ⟨by decide +kernel, by decide +kernel, overrun_compact leftover_cutOff,
    by decide +kernel, fun h => ?_⟩
  exact (leftover_branch leftover_cutOff).2.2.1 h.inside

end C2Hat
