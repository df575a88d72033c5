import C2Hat.Lib.Terminated

/-!
# Reading a stream line by line

A reader fills a buffer with the next line of a stream, its line feed included, or with as much
of it as fits, and terminates it.  Reading until the stream is at its end cuts it into chunks;
a line that fits is a chunk of its own.

## Main definitions

* `nextLine`, `fgets` — the next chunk, and the reader of the standard library.
* `chunks` — a whole stream.

## Main results

* `fgets_spec` — the reader fills the buffer with the next chunk.
* `chunks_lines` — **lines that fit are read one by one.**
-/

namespace Clib

/-- The line feed. -/
def lineFeed : UInt8 := 10

/-- The bytes up to the line feed, and no more than `n` of them. -/
def nextLine : ℕ → Bytes → Bytes
  | 0, _ => []
  | _ + 1, [] => []
  | n + 1, c :: stream => if c = lineFeed then [c] else c :: nextLine n stream

/-- `fgets(buffer, num, stream)`: the buffer and the rest of the stream, or `none` at its end.
What is behind the terminator stays in the buffer. -/
def fgets (buffer : Bytes) (num : ℕ) (stream : Bytes) : Except Fault (Option (Bytes × Bytes)) :=
  if stream = [] then .ok none
  else
    let line := nextLine (num - 1) stream
    if line.length < buffer.length then
      .ok (some (line ++ 0 :: buffer.drop (line.length + 1), stream.drop line.length))
    else .error .outOfBounds

/-- A byte in front of the first of some chunks. -/
def consFirst (c : UInt8) : List Bytes → List Bytes
  | [] => [[c]]
  | line :: lines => (c :: line) :: lines

/-- The chunks of a stream, when there is room for `n + 1` bytes in the buffer, and for `k + 1`
more in the current chunk. -/
def chunksFrom (n : ℕ) : ℕ → Bytes → List Bytes
  | _, [] => []
  | 0, c :: stream => [c] :: chunksFrom n n stream
  | k + 1, c :: stream =>
    if c = lineFeed then [c] :: chunksFrom n n stream else consFirst c (chunksFrom n k stream)

/-- The chunks of a stream that is read with a buffer of `num` bytes. -/
def chunks (num : ℕ) (stream : Bytes) : List Bytes := chunksFrom (num - 2) (num - 2) stream

@[simp] theorem nextLine_nil (n : ℕ) : nextLine n [] = [] := by
  cases n <;> rfl

theorem length_nextLine_le (n : ℕ) (stream : Bytes) : (nextLine n stream).length ≤ n := by
  induction stream generalizing n with
  | nil => simp
  | cons c stream ih =>
    cases n with
    | zero => exact le_rfl
    | succ n =>
      rw [nextLine]
      split
      · simp
      · rw [List.length_cons]
        exact Nat.succ_le_succ (ih n)

theorem nextLine_ne_nil {n : ℕ} {stream : Bytes} (hn : 0 < n) (h : stream ≠ []) :
    nextLine n stream ≠ [] := by
  obtain ⟨n, rfl⟩ := Nat.exists_eq_add_one.mpr hn
  cases stream with
  | nil => exact absurd rfl h
  | cons c stream =>
    rw [nextLine]
    split <;> simp

/-- A line that fits is read with its line feed, and nothing else is. -/
theorem nextLine_line {n : ℕ} {line : Bytes} (hline : lineFeed ∉ line) (hn : line.length < n)
    (rest : Bytes) : nextLine n (line ++ lineFeed :: rest) = line ++ [lineFeed] := by
  induction line generalizing n with
  | nil =>
    obtain ⟨n, rfl⟩ := Nat.exists_eq_add_one.mpr hn
    rw [List.nil_append, nextLine, if_pos rfl]
    rfl
  | cons c line ih =>
    rw [List.length_cons] at hn
    rw [List.mem_cons, not_or] at hline
    obtain ⟨n, rfl⟩ := Nat.exists_eq_add_one.mpr (Nat.zero_lt_of_lt hn)
    rw [List.cons_append, nextLine, if_neg (Ne.symm hline.1),
      ih hline.2 (Nat.lt_of_succ_lt_succ hn)]
    rfl

/-! ### The reader -/

/-- **The reader** fills the buffer with the next line, and keeps its length. -/
theorem fgets_spec (buffer : Bytes) {stream : Bytes} {num : ℕ} (hnum : 0 < num)
    (hfits : num ≤ buffer.length) (h : stream ≠ []) :
    ∃ behind, fgets buffer num stream =
        .ok (some (nextLine (num - 1) stream ++ 0 :: behind,
          stream.drop (nextLine (num - 1) stream).length)) ∧
      (nextLine (num - 1) stream ++ 0 :: behind).length = buffer.length := by
  have hlen := length_nextLine_le (num - 1) stream
  refine ⟨buffer.drop ((nextLine (num - 1) stream).length + 1), ?_, ?_⟩
  · rw [fgets, if_neg h, if_pos (by omega)]
  · rw [List.length_append, List.length_cons, List.length_drop]
    omega

/-- A read takes something away. -/
theorem length_drop_nextLine_lt {n : ℕ} (hn : 0 < n) {stream : Bytes} (h : stream ≠ []) :
    (stream.drop (nextLine n stream).length).length < stream.length := by
  have hline := List.length_pos_iff.mpr (nextLine_ne_nil hn h)
  have hstream := List.length_pos_iff.mpr h
  rw [List.length_drop]
  omega

/-! ### The chunks of a stream -/

theorem chunksFrom_cons (n k : ℕ) {stream : Bytes} (h : stream ≠ []) :
    chunksFrom n k stream = nextLine (k + 1) stream ::
      chunksFrom n n (stream.drop (nextLine (k + 1) stream).length) := by
  induction stream generalizing k with
  | nil => exact absurd rfl h
  | cons c stream ih =>
    cases k with
    | zero =>
      rw [chunksFrom, nextLine]
      split <;> rfl
    | succ k =>
      rw [chunksFrom, nextLine]
      by_cases hc : c = lineFeed
      · rw [if_pos hc, if_pos hc]
        rfl
      · rw [if_neg hc, if_neg hc]
        -- the line goes on, or the stream ends
        by_cases hstream : stream = []
        · subst hstream
          rw [nextLine_nil]
          cases k <;> rfl
        · rw [ih k hstream]
          rfl

/-- **The first chunk** is what a reader returns first. -/
theorem chunks_cons {num : ℕ} (hnum : 2 ≤ num) {stream : Bytes} (h : stream ≠ []) :
    chunks num stream = nextLine (num - 1) stream ::
      chunks num (stream.drop (nextLine (num - 1) stream).length) := by
  have hsub : num - 1 = num - 2 + 1 := by omega
  rw [chunks, chunksFrom_cons _ _ h, hsub]
  rfl

@[simp] theorem chunks_nil (num : ℕ) : chunks num [] = [] := by
  rw [chunks, chunksFrom]

/-- Lines with their line feeds. -/
def unlines (lines : List Bytes) : Bytes := lines.flatMap fun line => line ++ [lineFeed]

/-- A line that fits with its line feed and its terminator. -/
def FitsLine (num : ℕ) (line : Bytes) : Prop := lineFeed ∉ line ∧ line.length + 2 ≤ num

/-- **Lines that fit are read one by one**, and what follows them as if it stood alone. -/
theorem chunks_lines {num : ℕ} {lines : List Bytes} (h : ∀ line ∈ lines, FitsLine num line)
    (rest : Bytes) : chunks num (unlines lines ++ rest) =
      lines.map (fun line => line ++ [lineFeed]) ++ chunks num rest := by
  induction lines with
  | nil => rfl
  | cons line lines ih =>
    rw [List.forall_mem_cons] at h
    obtain ⟨⟨hline, hfits⟩, hlines⟩ := h
    have hstream : unlines (line :: lines) ++ rest =
        line ++ lineFeed :: (unlines lines ++ rest) := by
      simp [unlines]
    have hne : line ++ lineFeed :: (unlines lines ++ rest) ≠ [] := by simp
    have hdrop : (line ++ lineFeed :: (unlines lines ++ rest)).drop (line ++ [lineFeed]).length =
        unlines lines ++ rest := by
      rw [← List.singleton_append (l := unlines lines ++ rest), ← List.append_assoc,
        List.drop_left]
    rw [hstream, chunks_cons (by omega) hne, nextLine_line hline (by omega), hdrop, ih hlines]
    rfl

end Clib
