import C2Hat.Lib.CString

/-!
# Trimming in place

`src/lib/trim/trim.c`.  The functions take a pointer and work on the string it
points to, so their model is a function on the block that starts there; what
stands behind the terminator stays in place, and callers that kept an older end
pointer can still see it.

## Main results

* `rtrim_block`, `ltrim_block` — the block after trimming, terminator and what
  follows it included.
* `bytes_trim` — **the string left is the argument without its outer
  separators.**
-/

namespace C2Hat

open Clib

/-- The separators used when none are given: `"\t\n\v\f\r "`. -/
def defaultSeps : Bytes := [9, 10, 11, 12, 13, 32]

/-- `ltrim`: move the part behind the leading separators to the front. -/
def ltrim (str : Bytes) (seps : Bytes) : Bytes :=
  let totrim := ((CStr.ofBlock str).bytes.takeWhile (· ∈ seps)).length
  if totrim > 0 then
    let len := strlen str
    if totrim = len then
      str.set 0 0
    else
      -- memmove(str, str + totrim, len + 1 - totrim)
      (str.drop totrim).take (len + 1 - totrim) ++ str.drop (len + 1 - totrim)
  else str

/-- The loop of `rtrim`, entered with `i = n - 1`. -/
def rtrimLoop (seps : Bytes) : ℕ → Bytes → Bytes
  | 0, str => str
  | i + 1, str =>
    if (strchr seps (str.getD i 0)).isSome then rtrimLoop seps i (str.set i 0) else str

/-- `rtrim`: overwrite the trailing separators with terminators. -/
def rtrim (str : Bytes) (seps : Bytes) : Bytes := rtrimLoop seps (strlen str) str

/-- `trim`: both ends. -/
def trim (str : Bytes) (seps : Bytes) : Bytes := ltrim (rtrim str seps) seps

/-- What trimming is for: a string without its outer separators. -/
def strip (seps : Bytes) (s : Bytes) : Bytes := (s.rdropWhile (· ∈ seps)).dropWhile (· ∈ seps)

theorem isSome_strchr_iff {seps : Bytes} {c : UInt8} (hc : c ≠ 0) :
    (strchr seps c).isSome = true ↔ c ∈ seps := by
  by_cases h : c ∈ seps <;> simp [strchr, memchr, hc, h]

theorem nulFree_rdropWhile {s : Bytes} (hs : (0 : UInt8) ∉ s) (p : UInt8 → Bool) :
    (0 : UInt8) ∉ s.rdropWhile p :=
  fun h => hs ((List.rdropWhile_prefix p s).subset h)

theorem nulFree_strip {s : Bytes} (hs : (0 : UInt8) ∉ s) (seps : Bytes) :
    (0 : UInt8) ∉ strip seps s :=
  fun h => nulFree_rdropWhile hs _ ((List.dropWhile_suffix _).subset h)

/-- Stripping takes separators away and nothing else. -/
theorem exists_eq_append_strip (seps s : Bytes) :
    ∃ lead trail, s = lead ++ (strip seps s ++ trail) ∧ (∀ c ∈ lead, c ∈ seps) ∧
      ∀ c ∈ trail, c ∈ seps := by
  refine ⟨(s.rdropWhile (· ∈ seps)).takeWhile (· ∈ seps), s.rtakeWhile (· ∈ seps), ?_, ?_, ?_⟩
  · rw [strip, ← List.append_assoc, List.takeWhile_append_dropWhile,
      List.rdropWhile_append_rtakeWhile]
  · intro c hc
    simpa using List.mem_takeWhile_imp hc
  · intro c hc
    simpa using List.mem_rtakeWhile_imp hc

/-- Trailing separators of a concatenation: they reach the first part only when the
second consists of nothing else. -/
theorem rdropWhile_append (p : UInt8 → Bool) (s t : Bytes) :
    (s ++ t).rdropWhile p =
      if t.rdropWhile p = [] then s.rdropWhile p else s ++ t.rdropWhile p := by
  simp only [List.rdropWhile, List.reverse_append, List.dropWhile_append, List.isEmpty_iff,
    List.reverse_eq_nil_iff]
  split <;> simp

theorem rtrimLoop_append (seps : Bytes) {s : Bytes} (hs : (0 : UInt8) ∉ s) (tail : Bytes) :
    rtrimLoop seps s.length (s ++ tail) =
      s.rdropWhile (· ∈ seps) ++
        List.replicate (s.length - (s.rdropWhile (· ∈ seps)).length) 0 ++ tail := by
  -- from the right: each separator turned into a terminator joins the tail
  induction s using List.reverseRecOn generalizing tail with
  | nil => simp [rtrimLoop]
  | append_singleton s c ih =>
    rw [List.mem_append, not_or, List.mem_singleton] at hs
    have hget : (s ++ [c] ++ tail).getD s.length 0 = c := by simp
    have hset : (s ++ [c] ++ tail).set s.length 0 = s ++ 0 :: tail := by simp
    rw [List.length_append, List.length_singleton, rtrimLoop, hget, hset]
    by_cases hc : c ∈ seps
    · have hle := (List.rdropWhile_prefix (fun x => decide (x ∈ seps)) s).length_le
      rw [if_pos ((isSome_strchr_iff (Ne.symm hs.2)).mpr hc), ih hs.1,
        List.rdropWhile_concat_pos _ _ _ (by simpa using hc),
        Nat.sub_add_comm hle, List.replicate_succ']
      simp
    · rw [if_neg (by rw [isSome_strchr_iff (Ne.symm hs.2)]; exact hc),
        List.rdropWhile_concat_neg _ _ _ (by simpa using hc)]
      simp

/-- `rtrim` turns the trailing separators into terminators. -/
theorem rtrim_block (seps : Bytes) {s : Bytes} (hs : (0 : UInt8) ∉ s) (rest : Bytes) :
    rtrim (s ++ 0 :: rest) seps =
      s.rdropWhile (· ∈ seps) ++
        List.replicate (s.length - (s.rdropWhile (· ∈ seps)).length) 0 ++ 0 :: rest := by
  rw [rtrim, strlen_append hs, rtrimLoop_append seps hs]

/-- `ltrim` moves the text and its terminator to the front; the bytes from there
on keep what they held. -/
theorem ltrim_block (seps : Bytes) {s : Bytes} (hs : (0 : UInt8) ∉ s) (rest : Bytes) :
    ∃ tail, ltrim (s ++ 0 :: rest) seps = s.dropWhile (· ∈ seps) ++ 0 :: tail ∧
      (s.dropWhile (· ∈ seps)).length + tail.length = s.length + rest.length ∧
      (s.dropWhile (· ∈ seps) ≠ [] →
        tail = (s ++ 0 :: rest).drop ((s.dropWhile (· ∈ seps)).length + 1)) := by
  have hsplit : s.takeWhile (· ∈ seps) ++ s.dropWhile (· ∈ seps) = s :=
    List.takeWhile_append_dropWhile
  rw [ltrim, strlen_append hs, CStr.bytes_ofBlock_append hs]
  generalize s.takeWhile (· ∈ seps) = lead at hsplit ⊢
  generalize s.dropWhile (· ∈ seps) = text at hsplit ⊢
  subst hsplit
  dsimp only
  cases lead with
  | nil => exact ⟨rest, by simp, rfl, fun _ => by simp⟩
  | cons c lead =>
    rw [if_pos (by simp)]
    by_cases htext : text = []
    · -- nothing but separators: the string is emptied, the rest stays
      subst htext
      exact ⟨lead ++ 0 :: rest, by simp, by simp; omega, fun h => absurd rfl h⟩
    · have hpos : 0 < text.length := List.length_pos_iff.mpr htext
      rw [if_neg (by simp; exact htext)]
      refine ⟨_, ?_, ?_, fun _ => rfl⟩
      · have hlen : (c :: lead ++ text).length + 1 - (c :: lead).length = text.length + 1 := by
          simp only [List.length_append, List.length_cons]
          omega
        rw [hlen, List.append_assoc, List.drop_left, List.take_append,
          List.take_of_length_le (Nat.le_succ _)]
        simp
      · rw [List.length_drop, List.length_append, List.length_append, List.length_cons,
          List.length_cons]
        omega

/-- The block left by `trim`: the stripped string and its terminator; behind them the
bytes keep what they held when the trailing separators had been overwritten. -/
theorem trim_block (seps : Bytes) {s : Bytes} (hs : (0 : UInt8) ∉ s) (rest : Bytes) :
    ∃ tail, trim (s ++ 0 :: rest) seps = strip seps s ++ 0 :: tail ∧
      (strip seps s).length + tail.length = s.length + rest.length ∧
      (strip seps s ≠ [] → tail = (s.rdropWhile (· ∈ seps) ++
        List.replicate (s.length - (s.rdropWhile (· ∈ seps)).length) 0 ++ 0 :: rest).drop
          ((strip seps s).length + 1)) := by
  have hblock : s.rdropWhile (· ∈ seps) ++
      List.replicate (s.length - (s.rdropWhile (· ∈ seps)).length) 0 ++ 0 :: rest =
        s.rdropWhile (· ∈ seps) ++ 0 ::
          (List.replicate (s.length - (s.rdropWhile (· ∈ seps)).length) 0 ++ rest) := by
    rw [List.append_assoc, List.append_cons, ← List.replicate_succ', List.replicate_succ,
      List.cons_append]
  obtain ⟨tail, htail, hlen, hmoved⟩ := ltrim_block seps (nulFree_rdropWhile hs (· ∈ seps))
    (List.replicate (s.length - (s.rdropWhile (· ∈ seps)).length) 0 ++ rest)
  rw [trim, rtrim_block seps hs, hblock]
  refine ⟨tail, htail, ?_, hmoved⟩
  have hle := (List.rdropWhile_prefix (fun c => decide (c ∈ seps)) s).length_le
  rw [List.length_append, List.length_replicate] at hlen
  rw [strip]
  omega

/-- **The string left is the argument without its outer separators.** -/
theorem bytes_trim (seps : Bytes) {s : Bytes} (hs : (0 : UInt8) ∉ s) (rest : Bytes) :
    (CStr.ofBlock (trim (s ++ 0 :: rest) seps)).bytes = strip seps s := by
  obtain ⟨tail, htail, -, -⟩ := trim_block seps hs rest
  rw [htail, CStr.bytes_ofBlock_append (nulFree_strip hs seps)]

end C2Hat
