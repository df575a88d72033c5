import Mathlib.Data.Nat.Notation
import Mathlib.Logic.Function.Basic

/-!
# Monitors

A mutex with a condition variable, and the threads that use them.  What the threads do is
not fixed here: each of them is at a place of its program, and what is guarded by the mutex
is a state of any type.

A thread that waits has given the mutex up.  It goes on when another thread notifies it, or
for no reason, and has to take the mutex again like everyone else; nothing is said about
when it gets it.

## Main definitions

* `Monitor` — the owner of the mutex, the threads that wait, and the place of each thread.
* `go`, `acquire`, `release`, `wait`, `notify` — what threads do to it.
* `Sound` — only the owner is at a place that holds the mutex, and it knows something there
  about the state.

## Main results

* `Sound.inside`, `Sound.acquire`, … — **what the owner knows stays true**, since no other
  thread changes the state.
-/

namespace Monitors

variable {P σ : Type}

/-- A mutex, a condition variable, and threads at places of their programs. -/
structure Monitor (P : Type) where
  /-- The thread that has locked the mutex. -/
  owner : Option ℕ
  /-- The threads that wait for the condition. -/
  waiters : List ℕ
  place : ℕ → P

namespace Monitor

/-- Thread `i` goes to another place. -/
def go (m : Monitor P) (i : ℕ) (p : P) : Monitor P :=
  { m with place := Function.update m.place i p }

/-- Thread `i` locks the mutex, when no thread has it. -/
def acquire (m : Monitor P) (i : ℕ) (p : P) : Option (Monitor P) :=
  if m.owner = none then some { m.go i p with owner := some i } else none

/-- Thread `i` unlocks the mutex. -/
def release (m : Monitor P) (i : ℕ) (p : P) : Monitor P := { m.go i p with owner := none }

/-- Thread `i` unlocks the mutex and waits for the condition. -/
def wait (m : Monitor P) (i : ℕ) (p : P) : Monitor P :=
  { m.release i p with waiters := m.waiters ++ [i] }

/-- Thread `i`, which waits for the condition, stops waiting. -/
def notify (m : Monitor P) (i : ℕ) (p : P) : Option (Monitor P) :=
  if i ∈ m.waiters then some { m.go i p with waiters := m.waiters.erase i } else none

theorem place_go_self (m : Monitor P) (i : ℕ) (p : P) : (m.go i p).place i = p :=
  Function.update_self ..

theorem place_go_of_ne (m : Monitor P) {i j : ℕ} (h : j ≠ i) (p : P) :
    (m.go i p).place j = m.place j := Function.update_of_ne h ..

end Monitor

/-- Only the owner of the mutex is at a place that holds it, and `K` is true of this place
and the state. -/
structure Sound (holds : P → Bool) (K : P → σ → Prop) (m : Monitor P) (x : σ) : Prop where
  exclusive : ∀ i, holds (m.place i) = true → m.owner = some i
  knows : ∀ i, holds (m.place i) = true → K (m.place i) x

variable {holds : P → Bool} {K : P → σ → Prop} {m m' : Monitor P} {x x' : σ} {i : ℕ} {p : P}

/-- Two threads are not at places that hold the mutex. -/
theorem Sound.unique (h : Sound holds K m x) {j : ℕ} (hi : holds (m.place i) = true)
    (hj : holds (m.place j) = true) : j = i :=
  Option.some_inj.mp ((h.exclusive j hj).symm.trans (h.exclusive i hi))

/-- The owner goes on, and may change the state. -/
theorem Sound.inside (h : Sound holds K m x) (hi : holds (m.place i) = true)
    (hp : holds p = true → K p x') : Sound holds K (m.go i p) x' where
  exclusive := by
    intro j hj
    by_cases hji : j = i
    · rw [hji]
      exact h.exclusive i hi
    · rw [m.place_go_of_ne hji] at hj
      exact h.exclusive j hj
  knows := by
    intro j hj
    by_cases hji : j = i
    · rw [hji, m.place_go_self] at hj ⊢
      exact hp hj
    · rw [m.place_go_of_ne hji] at hj
      exact absurd (h.unique hi hj) hji

/-- A thread goes to a place that does not hold the mutex. -/
theorem Sound.outside (h : Sound holds K m x) (hp : holds p = false) :
    Sound holds K (m.go i p) x where
  exclusive := by
    intro j hj
    by_cases hji : j = i
    · rw [hji, m.place_go_self, hp] at hj
      cases hj
    · rw [m.place_go_of_ne hji] at hj
      exact h.exclusive j hj
  knows := by
    intro j hj
    by_cases hji : j = i
    · rw [hji, m.place_go_self, hp] at hj
      cases hj
    · rw [m.place_go_of_ne hji] at hj ⊢
      exact h.knows j hj

theorem Sound.acquire (h : Sound holds K m x) (hacquire : m.acquire i p = some m')
    (hp : holds p = true → K p x) : Sound holds K m' x := by
  unfold Monitor.acquire at hacquire
  split at hacquire
  · next hfree =>
    cases hacquire
    have hnone : ∀ j, ¬ holds (m.place j) = true := by
      intro j hj
      cases hfree.symm.trans (h.exclusive j hj)
    constructor
    · intro j hj
      by_cases hji : j = i
      · rw [hji]
      · change holds ((m.go i p).place j) = true at hj
        rw [m.place_go_of_ne hji] at hj
        exact absurd hj (hnone j)
    · intro j hj
      change holds ((m.go i p).place j) = true at hj
      show K ((m.go i p).place j) x
      by_cases hji : j = i
      · rw [hji, m.place_go_self] at hj ⊢
        exact hp hj
      · rw [m.place_go_of_ne hji] at hj
        exact absurd hj (hnone j)
  · cases hacquire

/-- Nobody holds the mutex after it has been unlocked. -/
theorem Sound.release (h : Sound holds K m x) (hi : holds (m.place i) = true)
    (hp : holds p = false) : Sound holds K (m.release i p) x := by
  have hnone : ∀ j, ¬ holds ((m.go i p).place j) = true := by
    intro j hj
    by_cases hji : j = i
    · rw [hji, m.place_go_self, hp] at hj
      cases hj
    · rw [m.place_go_of_ne hji] at hj
      exact hji (h.unique hi hj)
  constructor
  · intro j hj
    exact absurd hj (hnone j)
  · intro j hj
    exact absurd hj (hnone j)

theorem Sound.wait (h : Sound holds K m x) (hi : holds (m.place i) = true)
    (hp : holds p = false) : Sound holds K (m.wait i p) x :=
  ⟨(h.release hi hp).exclusive, (h.release hi hp).knows⟩

theorem Sound.notify (h : Sound holds K m x) (hnotify : m.notify i p = some m')
    (hp : holds p = false) : Sound holds K m' x := by
  unfold Monitor.notify at hnotify
  split at hnotify
  · cases hnotify
    exact ⟨(h.outside hp).exclusive, (h.outside hp).knows⟩
  · cases hnotify

end Monitors
