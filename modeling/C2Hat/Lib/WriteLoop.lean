import Mathlib.Data.Nat.Find
import Mathlib.Data.List.Infix
import Mathlib.Data.Int.Order.Basic

/-!
# Writing a buffer in pieces

A loop that calls a write function until a buffer is used up.  A call is given what is
left of the buffer; it returns how many of the items it has accepted, or a negative
number.  The function is the sequence of the numbers it returns, which is infinite, since
nothing says how often it will be called.

## Main definitions

* `writeLoop` — the loop, for so many rounds.
* `taken` — how many items the first calls have accepted.
* `Finishes`, `Stalls` — the sequences with which the loop returns, and does not.

## Main results

* `writeLoop_add` — the rounds that leave something to write.
* `writeLoop_failed`, `writeLoop_done` — the two ways the loop returns.
* `writeLoop_partial` — **partial writes add up** to what was to be written.
* `finishes_or_stalls` — **a loop that does not return is one whose calls accept nothing
  any more.**
-/

namespace WriteLoop

variable {β : Type}

/-- How a loop has returned. -/
structure Written (β : Type) where
  /-- The result: what was written in all, or -1. -/
  result : ℤ
  /-- The items that were accepted, in order. -/
  accepted : List β
  /-- The number of calls of the write function. -/
  calls : ℕ

/-- Write the first `length` items of a buffer, in at most so many rounds, from a given
call on.  `usable` is what is tested in front of each call; `data` is the offset that the
next call writes from, and `total` what has been written. -/
def writeLoop (usable : Bool) (buffer : List β) (length : ℕ) (results : ℕ → ℤ) :
    ℕ → ℕ → ℕ → ℕ → List β → Option (Written β)
  | 0, _, _, _, _ => none
  | rounds + 1, call, data, total, accepted =>
    if usable = false then some ⟨-1, accepted, call⟩
    else
      let sent := results call
      if sent < 0 then some ⟨-1, accepted, call + 1⟩
      else
        let accepted := accepted ++ (buffer.drop data).take sent.toNat
        let data := data + sent.toNat
        let total := total + sent.toNat
        if total < length then writeLoop usable buffer length results rounds (call + 1) data total
          accepted
        else some ⟨total, accepted, call + 1⟩

/-- What the first `n` calls have accepted. -/
def taken (results : ℕ → ℤ) : ℕ → ℕ
  | 0 => 0
  | n + 1 => taken results n + (results n).toNat

/-- The first `n` calls have been successful and have left something to write. -/
def Unfinished (length : ℕ) (results : ℕ → ℤ) (n : ℕ) : Prop :=
  ∀ i < n, 0 ≤ results i ∧ taken results (i + 1) < length

/-- Each call fails, or accepts at least one item and no more than it is given. -/
def PartialWrites (length : ℕ) (results : ℕ → ℤ) : Prop :=
  ∀ n, Unfinished length results n → results n < 0 ∨
    (1 ≤ results n ∧ results n ≤ (length - taken results n : ℕ))

/-- Some call fails, or is given the rest. -/
def Finishes (length : ℕ) (results : ℕ → ℤ) : Prop :=
  ∃ n, results n < 0 ∨ length ≤ taken results (n + 1)

/-- From some call on nothing is accepted, though something is left. -/
def Stalls (length : ℕ) (results : ℕ → ℤ) : Prop :=
  ∃ n, Unfinished length results n ∧ taken results n < length ∧ ∀ i, n ≤ i → results i = 0

variable {buffer : List β} {length : ℕ} {results : ℕ → ℤ}

theorem Unfinished.mono {m n : ℕ} (h : Unfinished length results n) (hm : m ≤ n) :
    Unfinished length results m :=
  fun i hi => h i (lt_of_lt_of_le hi hm)

theorem Unfinished.taken_lt {n : ℕ} (h : Unfinished length results n) (hlength : 0 < length) :
    taken results n < length := by
  cases n with
  | zero => exact hlength
  | succ n => exact (h n (Nat.lt_succ_self n)).2

theorem taken_mono {m n : ℕ} (h : m ≤ n) : taken results m ≤ taken results n := by
  induction n with
  | zero =>
    obtain rfl : m = 0 := Nat.le_zero.mp h
    exact le_rfl
  | succ n ih =>
    rcases Nat.lt_or_ge n m with hlt | hle
    · obtain rfl : m = n + 1 := by omega
      exact le_rfl
    · rw [taken]
      have hn := ih hle
      omega

/-! ### The rounds of the loop -/

/-- **The rounds that leave something to write**: each call goes on where the one before
has stopped. -/
theorem writeLoop_add {n : ℕ} (h : Unfinished length results n) (rounds : ℕ) :
    writeLoop true buffer length results (rounds + n) 0 0 0 [] =
      writeLoop true buffer length results rounds n (taken results n) (taken results n)
        (buffer.take (taken results n)) := by
  induction n generalizing rounds with
  | zero => rfl
  | succ n ih =>
    obtain ⟨hpos, hlt⟩ := h n (Nat.lt_succ_self n)
    have hround : rounds + (n + 1) = (rounds + 1) + n := by omega
    rw [hround, ih (h.mono (Nat.le_succ n)), writeLoop, if_neg (by decide)]
    dsimp only
    rw [if_neg (by omega), if_pos (by rw [taken] at hlt; exact hlt), ← List.take_add]
    rfl

/-- The loop returns because a call fails. -/
theorem writeLoop_failed {n : ℕ} (h : Unfinished length results n) (hneg : results n < 0)
    {rounds : ℕ} (hrounds : n < rounds) :
    writeLoop true buffer length results rounds 0 0 0 [] =
      some ⟨-1, buffer.take (taken results n), n + 1⟩ := by
  obtain ⟨k, rfl⟩ : ∃ k, rounds = (k + 1) + n := ⟨rounds - n - 1, by omega⟩
  rw [writeLoop_add h, writeLoop, if_neg (by decide)]
  exact if_pos hneg

/-- The loop returns because everything has been written. -/
theorem writeLoop_done {n : ℕ} (h : Unfinished length results n) (hpos : 0 ≤ results n)
    (hdone : length ≤ taken results (n + 1)) {rounds : ℕ} (hrounds : n < rounds) :
    writeLoop true buffer length results rounds 0 0 0 [] =
      some ⟨taken results (n + 1), buffer.take (taken results (n + 1)), n + 1⟩ := by
  obtain ⟨k, rfl⟩ : ∃ k, rounds = (k + 1) + n := ⟨rounds - n - 1, by omega⟩
  rw [taken] at hdone
  rw [writeLoop_add h, writeLoop, if_neg (by decide)]
  dsimp only
  rw [if_neg (by omega), if_neg (by omega), ← List.take_add]
  rfl

/-- As long as something is left the loop goes on. -/
theorem writeLoop_unfinished {n : ℕ} (h : Unfinished length results n) :
    writeLoop true buffer length results n 0 0 0 [] = none := by
  have hadd : writeLoop true buffer length results (0 + n) 0 0 0 [] = _ := writeLoop_add h 0
  rw [Nat.zero_add] at hadd
  rw [hadd, writeLoop]

/-! ### Returning -/

/-- The first call with which the loop returns. -/
theorem Finishes.exists_first (h : Finishes length results) :
    ∃ n, Unfinished length results n ∧ (results n < 0 ∨
      (0 ≤ results n ∧ length ≤ taken results (n + 1))) := by
  classical
  refine ⟨Nat.find h, fun i hi => ?_, ?_⟩
  · have hnot := Nat.find_min h hi
    rw [not_or, not_lt, not_le] at hnot
    exact hnot
  · rcases Nat.find_spec h with hneg | hdone
    · exact Or.inl hneg
    · rcases lt_or_ge (results (Nat.find h)) 0 with hneg | hpos
      · exact Or.inl hneg
      · exact Or.inr ⟨hpos, hdone⟩

theorem not_finishes_iff :
    ¬ Finishes length results ↔ ∀ n, Unfinished length results n := by
  constructor
  · intro h n i _
    refine ⟨?_, ?_⟩
    · by_contra hneg
      exact h ⟨i, Or.inl (not_le.mp hneg)⟩
    · by_contra hdone
      exact h ⟨i, Or.inr (not_lt.mp hdone)⟩
  · rintro h ⟨n, hneg | hdone⟩
    · exact absurd (h (n + 1) n (Nat.lt_succ_self n)).1 (not_le.mpr hneg)
    · exact absurd (h (n + 1) n (Nat.lt_succ_self n)).2 (not_lt.mpr hdone)

/-- The loop returns with the sequences that finish. -/
theorem exists_writeLoop_iff :
    (∃ rounds out, writeLoop true buffer length results rounds 0 0 0 [] = some out) ↔
      Finishes length results := by
  constructor
  · rintro ⟨rounds, out, hout⟩
    by_contra hnot
    rw [writeLoop_unfinished (not_finishes_iff.mp hnot rounds)] at hout
    cases hout
  · intro h
    obtain ⟨n, hunfinished, hneg | ⟨hpos, hdone⟩⟩ := h.exists_first
    · exact ⟨n + 1, _, writeLoop_failed hunfinished hneg (Nat.lt_succ_self n)⟩
    · exact ⟨n + 1, _, writeLoop_done hunfinished hpos hdone (Nat.lt_succ_self n)⟩

/-- Each of the calls has accepted something. -/
theorem PartialWrites.le_taken (hresults : PartialWrites length results) {n : ℕ}
    (h : Unfinished length results n) : n ≤ taken results n := by
  induction n with
  | zero => exact Nat.zero_le _
  | succ n ih =>
    have hbefore := h.mono (Nat.le_succ n)
    have hn := ih hbefore
    have hpos := (h n (Nat.lt_succ_self n)).1
    rw [taken]
    rcases hresults n hbefore with hneg | ⟨hone, -⟩
    · exact absurd hpos (not_le.mpr hneg)
    · omega

/-- **Partial writes add up**: without a failure everything has been accepted, and with
one a first part of it. -/
theorem writeLoop_partial (buffer : List β) (hlength : 0 < length)
    (hresults : PartialWrites length results) {rounds : ℕ} (hrounds : length ≤ rounds) :
    ∃ out, writeLoop true buffer length results rounds 0 0 0 [] = some out ∧
      ((∀ i < out.calls, 0 ≤ results i) →
        out.result = length ∧ out.accepted = buffer.take length) ∧
      ((∃ i < out.calls, results i < 0) →
        out.result = -1 ∧ out.accepted <+: buffer.take length) := by
  have hfin : Finishes length results := by
    by_contra hnot
    have hall := not_finishes_iff.mp hnot length
    exact absurd (hresults.le_taken hall) (not_le.mpr (hall.taken_lt hlength))
  obtain ⟨n, hunfinished, hlast⟩ := hfin.exists_first
  have hlt := hunfinished.taken_lt hlength
  have hn : n < rounds := by
    have hle := hresults.le_taken hunfinished
    omega
  rcases hlast with hneg | ⟨hpos, hdone⟩
  · refine ⟨_, writeLoop_failed hunfinished hneg hn, fun hall => ?_, fun _ => ⟨rfl, ?_⟩⟩
    · exact absurd (hall n (Nat.lt_succ_self n)) (not_le.mpr hneg)
    · exact List.take_prefix_take_left (Nat.le_of_lt hlt)
  · have hall : taken results (n + 1) = length := by
      rcases hresults n hunfinished with hneg | ⟨-, hle⟩
      · exact absurd hpos (not_le.mpr hneg)
      · rw [taken] at hdone ⊢
        omega
    refine ⟨_, writeLoop_done hunfinished hpos hdone hn, fun _ => ?_, ?_⟩
    · rw [hall]
      exact ⟨rfl, rfl⟩
    · rintro ⟨i, hi, hneg⟩
      rcases Nat.lt_succ_iff_lt_or_eq.mp hi with hi | rfl
      · exact absurd (hunfinished i hi).1 (not_le.mpr hneg)
      · exact absurd hpos (not_le.mpr hneg)

/-- Calls that stay below a bound accept something only finitely often. -/
theorem exists_idle (hpos : ∀ n, 0 ≤ results n) (hbound : ∀ n, taken results n < length) :
    ∃ n, ∀ i, n ≤ i → results i = 0 := by
  by_contra hnever
  simp only [not_exists, not_forall] at hnever
  -- otherwise the calls accept any number of items
  have hgrows : ∀ k, ∃ n, k ≤ taken results n := by
    intro k
    induction k with
    | zero => exact ⟨0, Nat.zero_le _⟩
    | succ k ih =>
      obtain ⟨n, hn⟩ := ih
      obtain ⟨i, hi, hne⟩ := hnever n
      refine ⟨i + 1, ?_⟩
      have hle : taken results n ≤ taken results i := taken_mono hi
      have hres := hpos i
      rw [taken]
      omega
  obtain ⟨n, hn⟩ := hgrows length
  exact absurd (hbound n) (not_lt.mpr hn)

/-- **The loop returns unless the calls accept nothing any more.** -/
theorem finishes_or_stalls (hlength : 0 < length) :
    Finishes length results ↔ ¬ Stalls length results := by
  constructor
  · rintro h ⟨n, hunfinished, hlt, hidle⟩
    have hstays : ∀ i, n ≤ i → taken results i = taken results n := by
      intro i hi
      induction i with
      | zero =>
        obtain rfl : n = 0 := Nat.le_zero.mp hi
        rfl
      | succ i ih =>
        rcases Nat.lt_or_ge i n with hin | hin
        · obtain rfl : n = i + 1 := by omega
          rfl
        · rw [taken, ih hin, hidle i hin]
          rfl
    refine not_finishes_iff.mpr (fun m i _ => ?_) h
    rcases Nat.lt_or_ge i n with hin | hin
    · exact hunfinished i hin
    · rw [hidle i hin, hstays (i + 1) (Nat.le_succ_of_le hin)]
      exact ⟨le_rfl, hlt⟩
  · intro hnot
    by_contra hfin
    have hall := not_finishes_iff.mp hfin
    have hpos : ∀ n, 0 ≤ results n := fun n => (hall (n + 1) n (Nat.lt_succ_self n)).1
    have hbound : ∀ n, taken results n < length := fun n => (hall n).taken_lt hlength
    obtain ⟨n, hidle⟩ := exists_idle hpos hbound
    exact hnot ⟨n, hall n, hbound n, hidle⟩

end WriteLoop
