import C2Hat.Lib.Monitor
import C2Hat.Lib.Run
import C2Hat.Queue

/-!
# Waiting for the queue

`CQueue_push`, `CQueue_tryPop` and `CQueue_waitAndPop` of `src/lib/cqueue/cqueue.c`, called by
any number of threads.  Each call of a `pthread` function and each operation on the queue is a
step.  `pthread_cond_signal` wakes a thread that waits, if there is one; a thread may also wake
up for no reason, and in both cases it has to lock the mutex again before it goes on.
Allocations succeed.

`CQueue_waitAndPop` tests the queue once, in front of `pthread_cond_wait`.

## Main definitions

* `CQueue.Place` — where a thread is in one of the functions.
* `CQueue.step` — a step of some thread.
* `CQueue.FindsItem` — the steps with which a thread comes back from `pthread_cond_wait` to a
  queue that is not empty.

## Main results

* `waitAndPop_delivers` — **no call returns `NULL`** in a run with these steps.
* `not_waitAndPop_delivers_spurious` — one wake-up for no reason is enough for `NULL`.
-/

namespace C2Hat

open Runs Monitors

namespace CQueue

/-- Where a thread is: what it does next. -/
inductive Place (α : Type)
  /-- In none of the functions. -/
  | outside
  /-- `CQueue_push`: the four statements behind the test of `this`. -/
  | pushLock (data : α) (length : ℕ)
  | pushEnqueue (data : α) (length : ℕ)
  | pushUnlock
  | pushSignal
  /-- `CQueue_tryPop`. -/
  | tryLock
  | tryTest
  | tryDequeue
  | tryUnlock (item : Option (α × ℕ))
  /-- `CQueue_waitAndPop`. -/
  | waitLock
  | waitTest
  /-- In `pthread_cond_wait`: not woken up, or woken up and without the mutex. -/
  | waitBlocked
  | waitWoken
  | waitDequeue
  | waitUnlock (item : Option (α × ℕ))

/-- The places behind `pthread_mutex_lock` and in front of `pthread_mutex_unlock`, except for
those in `pthread_cond_wait`. -/
def Place.locked {α : Type} : Place α → Bool
  | .pushEnqueue _ _ | .pushUnlock => true
  | .tryTest | .tryDequeue | .tryUnlock _ => true
  | .waitTest | .waitDequeue | .waitUnlock _ => true
  | _ => false

/-- A `CQueue` and the threads that use it. -/
structure Shared (α : Type) where
  /-- The mutex and the condition variable. -/
  monitor : Monitor (Place α)
  queue : Fifo α
  /-- What the calls of `CQueue_waitAndPop` have returned. -/
  popped : List (Option (α × ℕ))

variable {α : Type}

/-- `CQueue_new()`, in front of all calls. -/
def init : Shared α := ⟨⟨none, [], fun _ => .outside⟩, .new, []⟩

/-- A thread calls one of the functions. -/
inductive Call (α : Type)
  | push (data : α) (length : ℕ)
  | tryPop
  | waitAndPop

/-- What happens next. -/
inductive Move (α : Type)
  | call (thread : ℕ) (call : Call α)
  /-- A thread goes on with something other than `pthread_cond_signal`. -/
  | run (thread : ℕ)
  /-- A thread calls `pthread_cond_signal`, which wakes another one. -/
  | signal (thread : ℕ) (woken : Option ℕ)
  /-- A thread wakes up for no reason. -/
  | wake (thread : ℕ)

/-- The first statement of a function. -/
def Call.start : Call α → Place α
  | .push data length => .pushLock data length
  | .tryPop => .tryLock
  | .waitAndPop => .waitLock

/-- `Queue_dequeue(this->queue)`, the result being kept for the place `next`. -/
def dequeue (s : Shared α) (i : ℕ) (next : Option (α × ℕ) → Place α) : Option (Shared α) :=
  match s.queue.dequeue with
  | .error _ => none
  | .ok (item, queue) => some { s with monitor := s.monitor.go i (next item), queue := queue }

/-- Thread `i`, which is at `p`, goes on. -/
def next (s : Shared α) (i : ℕ) : Place α → Option (Shared α)
  | .outside => none
  | .pushLock data length =>
    (s.monitor.acquire i (.pushEnqueue data length)).map fun m => { s with monitor := m }
  | .pushEnqueue data length =>
    some { s with monitor := s.monitor.go i .pushUnlock, queue := s.queue.enqueue data length }
  | .pushUnlock => some { s with monitor := s.monitor.release i .pushSignal }
  | .pushSignal => none
  | .tryLock => (s.monitor.acquire i .tryTest).map fun m => { s with monitor := m }
  | .tryTest =>
    if s.queue.queue.empty = true then some { s with monitor := s.monitor.go i (.tryUnlock none) }
    else some { s with monitor := s.monitor.go i .tryDequeue }
  | .tryDequeue => dequeue s i .tryUnlock
  | .tryUnlock _ => some { s with monitor := s.monitor.release i .outside }
  | .waitLock => (s.monitor.acquire i .waitTest).map fun m => { s with monitor := m }
  | .waitTest =>
    if s.queue.queue.empty = true then some { s with monitor := s.monitor.wait i .waitBlocked }
    else some { s with monitor := s.monitor.go i .waitDequeue }
  | .waitBlocked => none
  | .waitWoken => (s.monitor.acquire i .waitDequeue).map fun m => { s with monitor := m }
  | .waitDequeue => dequeue s i .waitUnlock
  | .waitUnlock item =>
    some { s with monitor := s.monitor.release i .outside, popped := s.popped ++ [item] }

/-- Thread `i`, which is at `p`, calls `pthread_cond_signal`: another thread is woken up
unless none waits. -/
def signal (s : Shared α) (i : ℕ) (woken : Option ℕ) : Place α → Option (Shared α)
  | .pushSignal =>
    match woken with
    | none =>
      if s.monitor.waiters = [] then some { s with monitor := s.monitor.go i .outside } else none
    | some j =>
      ((s.monitor.go i .outside).notify j .waitWoken).map fun m => { s with monitor := m }
  | _ => none

/-- A call begins in a thread that is not in another one. -/
def enter (s : Shared α) (i : ℕ) (call : Call α) : Place α → Option (Shared α)
  | .outside => some { s with monitor := s.monitor.go i call.start }
  | _ => none

/-- A step. -/
def step (s : Shared α) : Move α → Option (Shared α)
  | .call i call => enter s i call (s.monitor.place i)
  | .run i => next s i (s.monitor.place i)
  | .signal i woken => signal s i woken (s.monitor.place i)
  | .wake i => (s.monitor.notify i .waitWoken).map fun m => { s with monitor := m }

/-- A thread that has been woken up does not lock the mutex while the queue is empty. -/
def FindsItem (s : Shared α) : Move α → Bool
  | .run i =>
    match s.monitor.place i with
    | .waitWoken => !s.queue.queue.empty
    | _ => true
  | _ => true

/-! ### What the owner of the mutex knows -/

/-- What a thread knows at a place: that it will have an item, or has one. -/
def Place.Knows : Place α → Fifo α → Prop
  | .waitDequeue, queue => queue.queue.empty = false
  | .waitUnlock item, _ => item ≠ none
  | _, _ => True

/-- The invariant: what has been returned is an item, and what will be is one. -/
structure Delivering (s : Shared α) : Prop where
  sound : Sound Place.locked Place.Knows s.monitor s.queue
  popped : ∀ item ∈ s.popped, item ≠ none

theorem delivering_init : Delivering (init : Shared α) := by
  refine ⟨⟨?_, ?_⟩, ?_⟩
  · intro i h
    cases h
  · intro i h
    cases h
  · intro item h
    cases h

variable {s s' : Shared α} {i : ℕ}

theorem dequeue_eq (s : Shared α) (i : ℕ) (next : Option (α × ℕ) → Place α) :
    dequeue s i next = some { s with
      monitor := s.monitor.go i (next s.queue.contents.head?)
      queue := s.queue.rest } := by
  rw [dequeue, s.queue.dequeue_cases.1]

/-- **A thread goes on.**  The queue changes only while the thread holds the mutex. -/
theorem Delivering.next (h : Delivering s) {p : Place α} (hp : s.monitor.place i = p)
    (hfinds : FindsItem s (.run i) = true) (hnext : next s i p = some s') : Delivering s' := by
  have hsound := h.sound
  have hlocked : p.locked = true → Place.locked (s.monitor.place i) = true := by
    intro hl
    rw [hp]
    exact hl
  cases p with
  | outside => cases hnext
  | pushLock data length =>
    obtain ⟨m, hm, rfl⟩ := Option.map_eq_some_iff.mp hnext
    exact ⟨hsound.acquire hm fun _ => trivial, h.popped⟩
  | pushEnqueue data length =>
    cases hnext
    exact ⟨hsound.inside (hlocked rfl) fun _ => trivial, h.popped⟩
  | pushUnlock =>
    cases hnext
    exact ⟨hsound.release (hlocked rfl) rfl, h.popped⟩
  | pushSignal => cases hnext
  | tryLock =>
    obtain ⟨m, hm, rfl⟩ := Option.map_eq_some_iff.mp hnext
    exact ⟨hsound.acquire hm fun _ => trivial, h.popped⟩
  | tryTest =>
    rw [CQueue.next] at hnext
    split at hnext <;> cases hnext
    · exact ⟨hsound.inside (hlocked rfl) fun _ => trivial, h.popped⟩
    · exact ⟨hsound.inside (hlocked rfl) fun _ => trivial, h.popped⟩
  | tryDequeue =>
    cases (dequeue_eq s i .tryUnlock).symm.trans hnext
    exact ⟨hsound.inside (hlocked rfl) fun _ => trivial, h.popped⟩
  | tryUnlock item =>
    cases hnext
    exact ⟨hsound.release (hlocked rfl) rfl, h.popped⟩
  | waitLock =>
    obtain ⟨m, hm, rfl⟩ := Option.map_eq_some_iff.mp hnext
    exact ⟨hsound.acquire hm fun _ => trivial, h.popped⟩
  | waitTest =>
    rw [CQueue.next] at hnext
    split at hnext
    · cases hnext
      exact ⟨hsound.wait (hlocked rfl) rfl, h.popped⟩
    · next hempty =>
      cases hnext
      exact ⟨hsound.inside (hlocked rfl) fun _ => Bool.eq_false_iff.mpr hempty, h.popped⟩
  | waitBlocked => cases hnext
  | waitWoken =>
    obtain ⟨m, hm, rfl⟩ := Option.map_eq_some_iff.mp hnext
    -- the condition on the run
    rw [FindsItem, hp] at hfinds
    exact ⟨hsound.acquire hm fun _ => Bool.not_eq_true' _ |>.mp hfinds, h.popped⟩
  | waitDequeue =>
    cases (dequeue_eq s i .waitUnlock).symm.trans hnext
    have hfull := hsound.knows i (hlocked rfl)
    rw [hp] at hfull
    refine ⟨hsound.inside (hlocked rfl) fun _ => ?_, h.popped⟩
    exact Fifo.head?_contents_ne_none hfull
  | waitUnlock item =>
    cases hnext
    have hitem := hsound.knows i (hlocked rfl)
    rw [hp] at hitem
    refine ⟨hsound.release (hlocked rfl) rfl, ?_⟩
    intro item' hmem
    rw [List.mem_append, List.mem_singleton] at hmem
    rcases hmem with hmem | rfl
    · exact h.popped item' hmem
    · exact hitem

/-- **One step.** -/
theorem Delivering.step (h : Delivering s) {move : Move α} (hfinds : FindsItem s move = true)
    (hstep : step s move = some s') : Delivering s' := by
  cases move with
  | call i call =>
    rw [CQueue.step] at hstep
    unfold enter at hstep
    split at hstep
    · cases hstep
      have hstart : call.start.locked = false := by cases call <;> rfl
      exact ⟨h.sound.outside hstart, h.popped⟩
    · cases hstep
  | run i => exact h.next rfl hfinds hstep
  | signal i woken =>
    rw [CQueue.step] at hstep
    unfold signal at hstep
    split at hstep
    · cases woken with
      | none =>
        dsimp only at hstep
        split at hstep
        · cases hstep
          exact ⟨h.sound.outside rfl, h.popped⟩
        · cases hstep
      | some j =>
        obtain ⟨m, hm, rfl⟩ := Option.map_eq_some_iff.mp hstep
        have hout : Sound Place.locked Place.Knows (s.monitor.go i .outside) s.queue :=
          h.sound.outside rfl
        exact ⟨hout.notify hm rfl, h.popped⟩
    · cases hstep
  | wake i =>
    obtain ⟨m, hm, rfl⟩ := Option.map_eq_some_iff.mp hstep
    exact ⟨h.sound.notify hm rfl, h.popped⟩

end CQueue

/-! ### The calls that wait -/

variable {α : Type} {s : CQueue.Shared α}

/-- **`CQueue_waitAndPop` does not return `NULL`**, whatever the threads do and whenever they
are woken up, in the runs in which a thread that has been woken up finds the queue not empty
once it has locked the mutex again. -/
theorem waitAndPop_delivers
    (hreach : Reachable (restrict CQueue.step fun s move => CQueue.FindsItem s move = true)
      CQueue.init s) : ∀ item ∈ s.popped, item ≠ none := by
  have hdelivering : CQueue.Delivering s := by
    refine hreach.invariant_restrict CQueue.delivering_init ?_
    intro s₁ move s₂ _ h hfinds hstep
    exact h.step hfinds hstep
  exact hdelivering.popped

/-- A thread waits, another one pushes and wakes it up. -/
theorem waitAndPop_delivers_woken :
    ∃ s : CQueue.Shared ℕ,
      Reachable (restrict CQueue.step fun s move => CQueue.FindsItem s move = true)
        CQueue.init s ∧ s.popped = [some (5, 4)] ∧ ∀ item ∈ s.popped, item ≠ none := by
  obtain ⟨s, hreach, hs⟩ : ∃ s : CQueue.Shared ℕ,
      Reachable (restrict CQueue.step fun s move => CQueue.FindsItem s move = true)
        CQueue.init s ∧ (s.popped == [some (5, 4)]) = true :=
    Reachable.of_any [.call 1 .waitAndPop, .run 1, .run 1, .call 2 (.push 5 4), .run 2, .run 2,
      .run 2, .signal 2 (some 1), .run 1, .run 1, .run 1] (by decide +kernel)
  exact ⟨s, hreach, eq_of_beq hs, waitAndPop_delivers hreach⟩

/-- A thread waits for an empty queue and wakes up for no reason: it goes on as if there were
an item. -/
theorem not_waitAndPop_delivers_spurious :
    ∃ s : CQueue.Shared ℕ, Reachable CQueue.step CQueue.init s ∧
      ¬ ∀ item ∈ s.popped, item ≠ none := by
  obtain ⟨s, hreach, hs⟩ : ∃ s : CQueue.Shared ℕ, Reachable CQueue.step CQueue.init s ∧
      (s.popped == [none]) = true :=
    Reachable.of_any [.call 1 .waitAndPop, .run 1, .run 1, .wake 1, .run 1, .run 1, .run 1]
      (by decide +kernel)
  refine ⟨s, hreach, fun hall => ?_⟩
  exact hall none (by rw [eq_of_beq hs]; simp) rfl

end C2Hat
