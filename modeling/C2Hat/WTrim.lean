import Mathlib.Algebra.Group.Nat.Defs
import C2Hat.Conversions
import C2Hat.Lib.Terminated
import C2Hat.Trim

/-!
# Trimming with all accesses

`src/lib/trim/trim.c` and `src/lib/wtrim/wtrim.c` with every access to the string.  The two walk
back from the end with an `int`, which starts at the length minus one, and with a pointer, which
starts at that many characters behind the start of the string: the length is a `size_t`, so the
number wraps for the empty string, and the address does so again.

## Main definitions

* `ltrimWith`, `rtrimFrom` — what the two versions have in common.
* `InPlace.trim`, `InPlace.wtrim` — the functions.
* `stripped` — a string without its outer separators.

## Main results

* `InPlace.trim_eq` — the model without the accesses is right.
* `trim_is_strip` — **trimming in place takes the outer separators away.**
-/

namespace C2Hat

open Clib

section Trimming

variable {α : Type} [DecidableEq α] (nul : α)

/-- What trimming is for: a string without its longest suffix and prefix of separators. -/
def stripped (seps s : List α) : List α := (s.rdropWhile (· ∈ seps)).dropWhile (· ∈ seps)

/-- `ltrim` and `wltrim`, for any characters. -/
def ltrimWith (seps str : List α) : Except Fault (List α) := do
  let totrim ← span (· ∈ seps) str
  if totrim > 0 then
    let len ← span (· ≠ nul) str
    if totrim = len then writeAt str 0 nul
    else memmove str 0 totrim (len + 1 - totrim)
  else return str

/-- The loop of `rtrim` and `wrtrim`, from an index on.  The terminator of the separators is
found, too. -/
def rtrimFrom (seps str : List α) (i : ℤ) : Except Fault (List α) :=
  if _h : i ≥ 0 then do
    let c ← readAt str i
    if c = nul ∨ c ∈ seps then
      let str ← writeAt str i nul
      rtrimFrom seps str (i - 1)
    else return str
  else return str
termination_by (i + 1).toNat

end Trimming

/-! ### The functions -/

namespace InPlace

/-- The separators that are used, those given or else the blanks. -/
def separators (seps : Option CStr) : Bytes := (seps.map CStr.bytes).getD defaultSeps

/-- `ltrim(str, seps)`. -/
def ltrim (str : Bytes) (seps : Option CStr) : Except Fault Bytes :=
  ltrimWith 0 (separators seps) str

/-- `rtrim(str, seps)`. -/
def rtrim (str : Bytes) (seps : Option CStr) : Except Fault Bytes := do
  let len ← span (· ≠ 0) str
  rtrimFrom 0 (separators seps) str (asInt (asSize ((len : ℤ) - 1)))

/-- `trim(str, seps)`. -/
def trim (str : Bytes) (seps : Option CStr) : Except Fault Bytes := do
  let str ← rtrim str seps
  ltrim str seps

/-- `L"\t\n\v\f\r "`. -/
def defaultWideSeps : List WChar := [9, 10, 11, 12, 13, 32]

/-- The separators that are used. -/
def wideSeparators (seps : Option WStr) : List WChar := (seps.map WStr.chars).getD defaultWideSeps

/-- `(str + i) - str` for a `wchar_t *str`, as addresses of 64 bits are subtracted. -/
def wideOffset (i : ℤ) : ℤ := (4 * i).bmod (2 ^ 64) / 4

/-- `wltrim(str, seps)`. -/
def wltrim (str : List WChar) (seps : Option WStr) : Except Fault (List WChar) :=
  ltrimWith 0 (wideSeparators seps) str

/-- `wrtrim(str, seps)`. -/
def wrtrim (str : List WChar) (seps : Option WStr) : Except Fault (List WChar) := do
  let len ← span (· ≠ 0) str
  rtrimFrom 0 (wideSeparators seps) str (wideOffset (asSize ((len : ℤ) - 1)))

/-- `wtrim(str, seps)`. -/
def wtrim (str : List WChar) (seps : Option WStr) : Except Fault (List WChar) := do
  let str ← wrtrim str seps
  wltrim str seps

end InPlace

/-! ### What they do -/

section Trimming

variable {α : Type} [DecidableEq α] {nul : α} {seps s : List α}

/-- The length of a string. -/
theorem span_length (hs : nul ∉ s) (rest : List α) :
    span (· ≠ nul) (s ++ nul :: rest) = .ok s.length := by
  refine span_append (fun x hx => ?_) (by simp) rest
  exact decide_eq_true fun h => hs (h ▸ hx)

/-- The leading separators. -/
theorem span_seps (hseps : nul ∉ seps) (rest : List α) :
    span (· ∈ seps) (s ++ nul :: rest) = .ok (s.takeWhile (· ∈ seps)).length := by
  have hlead : ∀ x ∈ s.takeWhile (· ∈ seps), decide (x ∈ seps) = true := by
    intro x hx
    exact List.mem_takeWhile_imp (p := fun y => decide (y ∈ seps)) hx
  have hsplit : s.takeWhile (· ∈ seps) ++ s.dropWhile (· ∈ seps) = s :=
    List.takeWhile_append_dropWhile
  cases htext : s.dropWhile (· ∈ seps) with
  | nil =>
    rw [htext, List.append_nil] at hsplit
    have h := span_append hlead (c := nul) (by simpa using hseps) rest
    rwa [hsplit] at h ⊢
  | cons c text =>
    have hc : decide (c ∈ seps) = false := by
      have hhead := List.dropWhile_get_zero_not (fun x => decide (x ∈ seps)) s
        (by rw [htext, List.length_cons]; omega)
      simpa [htext] using hhead
    have h := span_append hlead hc (text ++ nul :: rest)
    rw [← List.cons_append, ← htext, ← List.append_assoc, hsplit] at h
    exact h

/-- **The walk back** turns the trailing separators into terminators. -/
theorem rtrimFrom_eq (hs : nul ∉ s) (tail : List α) :
    rtrimFrom nul seps (s ++ tail) ((s.length : ℤ) - 1) =
      .ok (s.rdropWhile (· ∈ seps) ++
        List.replicate (s.length - (s.rdropWhile (· ∈ seps)).length) nul ++ tail) := by
  induction s using List.reverseRecOn generalizing tail with
  | nil =>
    rw [rtrimFrom]
    simp [pure, Except.pure]
  | append_singleton s c ih =>
    rw [List.mem_append, not_or, List.mem_singleton] at hs
    have hindex : ((s ++ [c]).length : ℤ) - 1 = s.length := by
      rw [List.length_append, List.length_singleton]
      omega
    rw [rtrimFrom, hindex, dif_pos (Int.natCast_nonneg _), List.append_assoc, List.singleton_append,
      readAt_append]
    simp only [bind, Except.bind]
    by_cases hc : c ∈ seps
    · have hle := (List.rdropWhile_prefix (fun x => decide (x ∈ seps)) s).length_le
      rw [if_pos (.inr hc), writeAt_append]
      simp only
      rw [ih hs.1, List.rdropWhile_concat_pos _ _ _ (by simpa using hc), List.length_append,
        List.length_singleton, Nat.sub_add_comm hle, List.replicate_succ']
      simp
    · have hnul : ¬ (c = nul ∨ c ∈ seps) := by
        rintro (h | h)
        · exact hs.2 h.symm
        · exact hc h
      rw [if_neg hnul, List.rdropWhile_concat_neg _ _ _ (by simpa using hc)]
      simp [pure, Except.pure]

/-- **The move** brings the text and its terminator to the front, and touches nothing behind the
terminator. -/
theorem ltrimWith_eq (hs : nul ∉ s) (hseps : nul ∉ seps) :
    ∃ junk, (s.dropWhile (· ∈ seps)).length + junk.length = s.length ∧ ∀ rest,
      ltrimWith nul seps (s ++ nul :: rest) =
        .ok (s.dropWhile (· ∈ seps) ++ nul :: junk ++ rest) := by
  have hsplit : s.takeWhile (· ∈ seps) ++ s.dropWhile (· ∈ seps) = s :=
    List.takeWhile_append_dropWhile
  have hlen := congrArg List.length hsplit
  rw [List.length_append] at hlen
  have hrun : ∀ rest, ltrimWith nul seps (s ++ nul :: rest) =
      if (s.takeWhile (· ∈ seps)).length > 0 then
        if (s.takeWhile (· ∈ seps)).length = s.length then writeAt (s ++ nul :: rest) 0 nul
        else memmove (s ++ nul :: rest) 0 (s.takeWhile (· ∈ seps)).length
          (s.length + 1 - (s.takeWhile (· ∈ seps)).length)
      else .ok (s ++ nul :: rest) := by
    intro rest
    rw [ltrimWith, span_seps hseps, span_length hs]
    rfl
  simp only [hrun]
  generalize s.takeWhile (· ∈ seps) = lead at hsplit hlen ⊢
  generalize s.dropWhile (· ∈ seps) = text at hsplit hlen ⊢
  subst hsplit
  cases lead with
  | nil => exact ⟨[], by simp, fun rest => by simp⟩
  | cons c lead =>
    by_cases htext : text = []
    · -- nothing but separators
      subst htext
      refine ⟨lead ++ [nul], by simp, fun rest => ?_⟩
      rw [if_pos (by simp), if_pos (by simp)]
      refine (writeAt_append [] c nul (lead ++ [] ++ nul :: rest)).trans ?_
      simp
    · have hpos : 0 < text.length := List.length_pos_iff.mpr htext
      refine ⟨(c :: lead ++ (text ++ [nul])).drop (text.length + 1), ?_, fun rest => ?_⟩
      · simp only [List.length_drop, List.length_append, List.length_cons, List.length_nil]
        omega
      · have hsize : (c :: lead ++ text).length + 1 - (c :: lead).length =
            (text ++ [nul]).length := by
          simp only [List.length_append, List.length_cons, List.length_nil]
          omega
        have hblock : c :: lead ++ text ++ nul :: rest = c :: lead ++ (text ++ [nul]) ++ rest := by
          simp
        rw [if_pos (by simp), if_neg (by simp; exact htext), hsize, hblock, memmove_front,
          List.length_append, List.length_singleton]
        simp

/-- **Both ends.** -/
theorem trimmed_eq (hs : nul ∉ s) (hseps : nul ∉ seps) :
    ∃ junk, (stripped seps s).length + junk.length = s.length ∧ ∀ rest,
      (rtrimFrom nul seps (s ++ nul :: rest) ((s.length : ℤ) - 1)).bind (ltrimWith nul seps) =
        .ok (stripped seps s ++ nul :: junk ++ rest) := by
  have hfront : nul ∉ s.rdropWhile (· ∈ seps) :=
    fun h => hs ((List.rdropWhile_prefix _ s).subset h)
  obtain ⟨junk, hlen, hrun⟩ := ltrimWith_eq hfront hseps
  have hle := (List.rdropWhile_prefix (fun x => decide (x ∈ seps)) s).length_le
  generalize hn : s.length - (s.rdropWhile (· ∈ seps)).length = n
  refine ⟨junk ++ List.replicate n nul, ?_, fun rest => ?_⟩
  · rw [List.length_append, List.length_replicate, stripped]
    omega
  · -- the separators that have been overwritten are behind the terminator
    have hblock : s.rdropWhile (· ∈ seps) ++ List.replicate n nul ++ nul :: rest =
        s.rdropWhile (· ∈ seps) ++ nul :: (List.replicate n nul ++ rest) := by
      rw [List.append_assoc, List.append_cons, ← List.replicate_succ', List.replicate_succ,
        List.cons_append]
    rw [rtrimFrom_eq hs, hn, hblock, Except.bind, hrun, stripped]
    simp

end Trimming

/-! ### The two versions -/

namespace InPlace

/-- A byte as a wide character. -/
def widen (s : CStr) : WStr :=
  ⟨s.bytes.map UInt8.toUInt32, fun h => by
    obtain ⟨c, hc, hzero⟩ := List.mem_map.mp h
    have hnul : c = 0 := UInt8.toUInt32_inj.mp hzero
    exact s.nulFree (hnul ▸ hc)⟩

theorem nul_notMem_separators (seps : Option CStr) : (0 : UInt8) ∉ separators seps := by
  cases seps with
  | none => decide
  | some seps => exact seps.nulFree

theorem nul_notMem_wideSeparators (seps : Option WStr) : (0 : WChar) ∉ wideSeparators seps := by
  cases seps with
  | none => decide
  | some seps => exact seps.nulFree

theorem wideSeparators_widen (seps : Option CStr) :
    wideSeparators (seps.map widen) = (separators seps).map UInt8.toUInt32 := by
  cases seps with
  | none => rfl
  | some seps => rfl

/-- The index at which `rtrim` starts, also that of the empty string. -/
theorem startIndex_eq {n : ℕ} (h : n < 2 ^ 31) : asInt (asSize ((n : ℤ) - 1)) = (n : ℤ) - 1 :=
  asInt_asSize (by omega) (by omega)

/-- The pointer at which `wrtrim` starts. -/
theorem wideOffset_eq {n : ℕ} (h : n < 2 ^ 31) :
    wideOffset (asSize ((n : ℤ) - 1)) = (n : ℤ) - 1 := by
  rw [wideOffset, asSize, Int.bmod_def]
  split_ifs <;> omega

/-- `trim` on a string and whatever is behind it. -/
theorem trim_run {s : Bytes} (hs : (0 : UInt8) ∉ s) (hlen : s.length < 2 ^ 31)
    (seps : Option CStr) :
    ∃ junk, (stripped (separators seps) s).length + junk.length = s.length ∧ ∀ rest,
      trim (s ++ 0 :: rest) seps = .ok (stripped (separators seps) s ++ 0 :: junk ++ rest) := by
  obtain ⟨junk, hjunk, hrun⟩ := trimmed_eq hs (nul_notMem_separators seps)
  refine ⟨junk, hjunk, fun rest => ?_⟩
  rw [← hrun, trim, rtrim, span_length hs]
  simp only [bind, Except.bind, startIndex_eq hlen]
  rfl

/-- `wtrim` on a string and whatever is behind it. -/
theorem wtrim_run {s : List WChar} (hs : (0 : WChar) ∉ s) (hlen : s.length < 2 ^ 31)
    (seps : Option WStr) :
    ∃ junk, (stripped (wideSeparators seps) s).length + junk.length = s.length ∧ ∀ rest,
      wtrim (s ++ 0 :: rest) seps =
        .ok (stripped (wideSeparators seps) s ++ 0 :: junk ++ rest) := by
  obtain ⟨junk, hjunk, hrun⟩ := trimmed_eq hs (nul_notMem_wideSeparators seps)
  refine ⟨junk, hjunk, fun rest => ?_⟩
  rw [← hrun, wtrim, wrtrim, span_length hs]
  simp only [bind, Except.bind, wideOffset_eq hlen]
  rfl

/-- Separators are separators in both versions. -/
theorem stripped_widen (seps s : Bytes) :
    stripped (seps.map UInt8.toUInt32) (s.map UInt8.toUInt32) =
      (stripped seps s).map UInt8.toUInt32 := by
  have hsep : (fun c : WChar => decide (c ∈ seps.map UInt8.toUInt32)) ∘ UInt8.toUInt32 =
      fun c => decide (c ∈ seps) := by
    funext c
    have hiff : c.toUInt32 ∈ seps.map UInt8.toUInt32 ↔ c ∈ seps :=
      List.mem_map_of_injective fun _ _ => UInt8.toUInt32_inj.mp
    exact decide_eq_decide.mpr hiff
  rw [stripped, stripped, List.rdropWhile, List.rdropWhile, ← List.map_reverse,
    List.dropWhile_map, hsep, ← List.map_reverse, List.dropWhile_map, hsep]

theorem ltrim_eq {s : Bytes} (hs : (0 : UInt8) ∉ s) {seps : Bytes} (hseps : (0 : UInt8) ∉ seps)
    (rest : Bytes) :
    ltrimWith 0 seps (s ++ 0 :: rest) = .ok (C2Hat.ltrim (s ++ 0 :: rest) seps) := by
  have hle := (List.takeWhile_prefix (fun c => decide (c ∈ seps)) (l := s)).length_le
  rw [ltrimWith, span_seps hseps, span_length hs, C2Hat.ltrim, strlen_append hs,
    CStr.bytes_ofBlock_append hs]
  simp only [bind, Except.bind, pure, Except.pure]
  generalize (s.takeWhile (· ∈ seps)).length = totrim at hle ⊢
  split_ifs with hpos hall
  · have hinside : (0 : ℤ) ≤ 0 ∧ (0 : ℤ) < (s ++ 0 :: rest).length := by
      rw [List.length_append, List.length_cons]
      omega
    rw [writeAt, if_pos hinside]
    rfl
  · have hinside : 0 + (s.length + 1 - totrim) ≤ (s ++ 0 :: rest).length ∧
        totrim + (s.length + 1 - totrim) ≤ (s ++ 0 :: rest).length := by
      rw [List.length_append, List.length_cons]
      omega
    rw [memmove, if_pos hinside, List.take_zero, List.nil_append, Nat.zero_add]
  · rfl

/-- **The model without the accesses is right**: they are all inside of the string. -/
theorem trim_eq {s : Bytes} (hs : (0 : UInt8) ∉ s) (hlen : s.length < 2 ^ 31)
    (seps : Option CStr) (rest : Bytes) :
    trim (s ++ 0 :: rest) seps = .ok (C2Hat.trim (s ++ 0 :: rest) (separators seps)) := by
  have hfront := nulFree_rdropWhile hs (· ∈ separators seps)
  have hblock : s.rdropWhile (· ∈ separators seps) ++
      List.replicate (s.length - (s.rdropWhile (· ∈ separators seps)).length) 0 ++ 0 :: rest =
        s.rdropWhile (· ∈ separators seps) ++ 0 ::
          (List.replicate (s.length - (s.rdropWhile (· ∈ separators seps)).length) 0 ++ rest) := by
    rw [List.append_assoc, List.append_cons, ← List.replicate_succ', List.replicate_succ,
      List.cons_append]
  rw [trim, rtrim, span_length hs, C2Hat.trim, rtrim_block _ hs]
  simp only [bind, Except.bind, startIndex_eq hlen]
  rw [rtrimFrom_eq hs, hblock]
  exact ltrim_eq hfront (nul_notMem_separators seps) _

/-- **Trimming in place takes the outer separators away.**  For strings of any length below
`2 ^ 31` and any separators, both versions leave the string without its longest prefix and its
longest suffix of separators, as they never access anything in front of the string or behind its
terminator, whatever is there; and for strings of bytes they agree with each other. -/
theorem trim_is_strip (s : CStr) (ws : WStr) (seps : Option CStr) (wseps : Option WStr)
    (hs : s.bytes.length < 2 ^ 31) (hws : ws.chars.length < 2 ^ 31) :
    (∃ junk, (stripped (separators seps) s.bytes).length + junk.length = s.bytes.length ∧
      ∀ rest, trim (s.bytes ++ 0 :: rest) seps =
        .ok (stripped (separators seps) s.bytes ++ 0 :: junk ++ rest)) ∧
    (∃ junk, (stripped (wideSeparators wseps) ws.chars).length + junk.length =
        ws.chars.length ∧
      ∀ rest, wtrim (ws.chars ++ 0 :: rest) wseps =
        .ok (stripped (wideSeparators wseps) ws.chars ++ 0 :: junk ++ rest)) ∧
    ∃ junk, ∀ rest, wtrim ((widen s).chars ++ 0 :: rest) (seps.map widen) =
      .ok ((stripped (separators seps) s.bytes).map UInt8.toUInt32 ++ 0 :: junk ++ rest) := by
  have hwide : (widen s).chars.length < 2 ^ 31 := by
    show (s.bytes.map UInt8.toUInt32).length < 2 ^ 31
    rw [List.length_map]
    exact hs
  refine ⟨trim_run s.nulFree hs seps, wtrim_run ws.nulFree hws wseps, ?_⟩
  obtain ⟨junk, -, hrun⟩ := wtrim_run (widen s).nulFree hwide (seps.map widen)
  refine ⟨junk, fun rest => ?_⟩
  rw [hrun, wideSeparators_widen]
  exact congrArg (fun text => Except.ok (text ++ 0 :: junk ++ rest)) (stripped_widen _ _)

/-- A string of blanks is emptied, and a wide one loses those around its text. -/
theorem trim_is_strip_blanks :
    (∃ junk : Bytes, ∀ rest, trim (ascii " \t" ++ 0 :: rest) none = .ok (0 :: junk ++ rest)) ∧
      ∃ junk : List WChar, ∀ rest,
        wtrim ([32, 104, 105, 10] ++ 0 :: rest) none = .ok ([104, 105] ++ 0 :: junk ++ rest) := by
  obtain ⟨⟨junk, -, hrun⟩, ⟨wjunk, -, hwrun⟩, -⟩ := trim_is_strip ⟨ascii " \t", by decide⟩
    ⟨[32, 104, 105, 10], by decide⟩ none none (by decide) (by decide)
  have hempty : stripped (separators none) (ascii " \t") = [] := by decide
  have htext : stripped (wideSeparators none) [32, 104, 105, 10] = [104, 105] := by decide
  simp only [hempty] at hrun
  simp only [htext] at hwrun
  exact ⟨⟨junk, hrun⟩, wjunk, hwrun⟩

end InPlace

end C2Hat
