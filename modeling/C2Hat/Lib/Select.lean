import Mathlib.Algebra.BigOperators.Group.List.Basic
import Mathlib.Algebra.GroupWithZero.Nat

/-!
# Loops around select

A loop that waits for one descriptor with `select`, and gives it the same variables in each
round.  The arguments of `select` are results too: when it returns, the sets hold what is
ready, and the timeout holds the time that was left.  So a call is made with what the call
before it has left behind, unless the loop stores the values again.

## Main definitions

* `Args`, `Return`, `Args.after` — the variables, what a call returns, and the variables
  behind it.
* `loop` — a loop that does not store the values again.
* `followed` — the returns behind which the loop comes to another call.
* `paced` — the rounds for data that comes in with pauses.

## Main results

* `all_calls_iff` — **every call has a property exactly when each return that is followed by
  another call keeps it.**
* `loop_paced` — **one timeout is used up by all pauses together.**
-/

namespace Select

variable {β ε : Type}

/-- The variables: whether the descriptor is in the read set and in the error set, and the
timeout, `none` when there is none. -/
structure Args where
  reads : Bool
  errors : Bool
  timeout : Option ℕ
  deriving DecidableEq

/-- How a call returns; `left` is the time that was left. -/
inductive Return
  | failed (left : ℕ)
  | timeout
  | ready (readable errored : Bool) (left : ℕ)
  deriving DecidableEq

/-- The variables behind a call: a failure leaves the sets alone. -/
def Args.after (a : Args) : Return → Args
  | .failed left => { a with timeout := a.timeout.map fun _ => left }
  | .timeout => ⟨false, false, a.timeout.map fun _ => 0⟩
  | .ready readable errored left => ⟨readable, errored, a.timeout.map fun _ => left⟩

/-- The time that is left is not more than was given. -/
def Args.hasLeft (a : Args) (left : ℕ) : Bool := a.timeout.all fun t => left ≤ t

/-- A call may return like this: what is ready has been asked for, and is something. -/
def Args.allows (a : Args) : Return → Bool
  | .failed left => a.hasLeft left
  | .timeout => a.timeout.isSome
  | .ready readable errored left =>
    (readable || errored) && (!readable || a.reads) && (!errored || a.errors) && a.hasLeft left

/-- One return after the other may be like this. -/
def Possible (a : Args) : List Return → Bool
  | [] => true
  | r :: rs => a.allows r && Possible (a.after r) rs

/-! ### The loop -/

/-- A round of a loop. -/
structure Round (β : Type) where
  /-- The condition of the loop does not hold any more. -/
  stop : Bool
  /-- What `select` returns. -/
  ret : Return
  /-- What happens in the rest of the body. -/
  body : β

/-- A loop: the arguments of its calls, and how it ended, if it did.  `verdict` is what the
body makes of a round: to go on, or an end. -/
def loop (verdict : Round β → Option ε) (stopped : ε) (a : Args) :
    List (Round β) → List Args × Option ε
  | [] => ([], none)
  | r :: rs =>
    if r.stop then ([], some stopped)
    else
      match verdict r with
      | some e => ([a], some e)
      | none =>
        let rest := loop verdict stopped (a.after r.ret) rs
        (a :: rest.1, rest.2)

/-- The loop comes to another call. -/
def comes : List (Round β) → Bool
  | [] => false
  | r :: _ => !r.stop

/-- The returns behind which the loop comes to another call. -/
def followed (verdict : Round β → Option ε) : List (Round β) → List Return
  | [] => []
  | r :: rs =>
    if !r.stop && (verdict r).isNone && comes rs then r.ret :: followed verdict rs else []

variable {verdict : Round β → Option ε} {stopped : ε}

/-- The first call of a loop that comes to one. -/
theorem mem_loop_of_comes {rounds : List (Round β)} (h : comes rounds = true) (a : Args) :
    a ∈ (loop verdict stopped a rounds).1 := by
  cases rounds with
  | nil => cases h
  | cons r rs =>
    have hstop : ¬ r.stop = true := by simpa [comes] using h
    rw [loop, if_neg hstop]
    split
    · exact List.mem_singleton.mpr rfl
    · exact List.mem_cons_self ..

theorem loop_of_not_comes {rounds : List (Round β)} (h : comes rounds = false) (a : Args) :
    (loop verdict stopped a rounds).1 = [] := by
  cases rounds with
  | nil => rfl
  | cons r rs =>
    have hstop : r.stop = true := by simpa [comes] using h
    rw [loop, if_pos hstop]

/-- **What every call has**: `P` holds of all arguments when each return that is followed by
another call keeps it. -/
theorem all_calls_iff {P : Args → Prop} {K : Return → Prop}
    (hkeeps : ∀ a r, P a → (P (a.after r) ↔ K r)) {a : Args} (ha : P a) (rounds : List (Round β)) :
    (∀ call ∈ (loop verdict stopped a rounds).1, P call) ↔
      ∀ ret ∈ followed verdict rounds, K ret := by
  induction rounds generalizing a with
  | nil => simp [loop, followed]
  | cons r rs ih =>
    by_cases hstop : r.stop = true
    · simp [loop, followed, hstop]
    · rw [loop, if_neg hstop]
      cases hverdict : verdict r with
      | some e => simp [followed, hverdict, ha]
      | none =>
        cases hcomes : comes rs with
        | false =>
          -- this was the last call
          simp [followed, hverdict, hcomes, loop_of_not_comes hcomes, ha]
        | true =>
          have hfollowed : followed verdict (r :: rs) = r.ret :: followed verdict rs := by
            rw [followed, if_pos (by simp [hstop, hverdict, hcomes])]
          rw [hfollowed]
          simp only [List.forall_mem_cons]
          constructor
          · rintro ⟨-, hall⟩
            have hafter := hall _ (mem_loop_of_comes hcomes _)
            exact ⟨(hkeeps a r.ret ha).mp hafter, (ih hafter).mp hall⟩
          · rintro ⟨hret, hall⟩
            exact ⟨ha, (ih ((hkeeps a r.ret ha).mpr hret)).mpr hall⟩

/-! ### Pauses -/

/-- What a call returns when data comes in after a pause, and no error. -/
def Args.wait (a : Args) (pause : ℕ) : Return :=
  match a.timeout with
  | none => .ready a.reads false 0
  | some t => if a.reads && pause < t then .ready true false (t - pause) else .timeout

/-- The rounds for data that comes in with pauses, each with the rest of its body. -/
def paced (a : Args) : List (ℕ × β) → List (Round β)
  | [] => []
  | (pause, body) :: rest =>
    ⟨false, a.wait pause, body⟩ :: paced (a.after (a.wait pause)) rest

/-- **The pauses use up one timeout together**: a loop that the bodies do not leave ends with a
timeout when the pauses are as long as that in all. -/
theorem loop_paced {e : ε} {errors : Bool} {t : ℕ} (ht : 0 < t) {sends : List (ℕ × β)}
    (hready : ∀ x ∈ sends, ∀ left, verdict ⟨false, .ready true false left, x.2⟩ = none)
    (htimeout : ∀ body, verdict ⟨false, .timeout, body⟩ = some e) :
    (loop verdict stopped ⟨true, errors, some t⟩ (paced ⟨true, errors, some t⟩ sends)).2 =
      if (sends.map Prod.fst).sum < t then none else some e := by
  induction sends generalizing errors t with
  | nil => simp [paced, loop, ht]
  | cons x sends ih =>
    rw [List.forall_mem_cons] at hready
    obtain ⟨pause, body⟩ := x
    rw [paced, loop, if_neg (by simp), List.map_cons, List.sum_cons]
    by_cases hlt : pause < t
    · have hwait : Args.wait ⟨true, errors, some t⟩ pause = .ready true false (t - pause) := by
        simp [Args.wait, hlt]
      have hafter : Args.after ⟨true, errors, some t⟩ (.ready true false (t - pause)) =
          ⟨true, false, some (t - pause)⟩ := rfl
      rw [hwait, hready.1, hafter]
      dsimp only
      rw [ih (Nat.sub_pos_of_lt hlt) hready.2]
      congr 1
      rw [eq_iff_iff]
      omega
    · have hwait : Args.wait ⟨true, errors, some t⟩ pause = .timeout := by
        simp [Args.wait, hlt]
      rw [hwait, htimeout, if_neg (by omega)]

/-- Such returns are possible. -/
theorem possible_paced {a : Args} (ha : a.timeout.isSome = true) (sends : List (ℕ × β)) :
    Possible a ((paced a sends).map Round.ret) = true := by
  induction sends generalizing a with
  | nil => rfl
  | cons x sends ih =>
    obtain ⟨t, ht⟩ := Option.isSome_iff_exists.mp ha
    have hafter : (a.after (a.wait x.1)).timeout.isSome = true := by
      cases a.wait x.1 <;> simp [Args.after, ht]
    rw [paced, List.map_cons, Possible, Bool.and_eq_true]
    refine ⟨?_, ih hafter⟩
    rw [Args.wait, ht]
    dsimp only
    split
    · next hready =>
      rw [Bool.and_eq_true] at hready
      simp [Args.allows, Args.hasLeft, ht, hready.1]
    · rw [Args.allows, ht]
      rfl

end Select
