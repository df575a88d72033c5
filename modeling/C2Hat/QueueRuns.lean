import C2Hat.Lib.Printf
import C2Hat.Queue

/-!
# Runs of queue operations

What sequences of calls of `src/lib/queue/queue.c` do to a queue, from `Queue_new` on,
when allocations succeed.  A queue is a sequence of blocks with their lengths: blocks
are put in at its end and taken out at its front.

The pointer `last` is stale when the queue has become empty by `Queue_dequeue`.
Following it would be a fault, so that an operation that returns has not done it.

## Main definitions

* `QueueOp`, `QueueOp.run`, `QueueOp.spec` — the operations, as they are and as
  operations on sequences.

## Main results

* `queue_is_fifo` — **a queue is first in, first out**, after any operations.
-/

namespace C2Hat

open Clib

variable {α : Type}

/-! ### Operations -/

/-- The operations on a queue. -/
inductive QueueOp (α : Type)
  | enqueue (data : α) (size : ℕ)
  | dequeue
  | peek
  | lpeek
  | purge
  | length
  | empty

/-- What an operation returns. -/
inductive QueueResult (α : Type)
  | flag (b : Bool)
  | item (data : Option (α × ℕ))
  | count (n : ℕ)
  deriving DecidableEq

namespace QueueOp

/-- The operation on a queue. -/
def run (q : Queue α) : QueueOp α → Except Stuck (QueueResult α × Queue α)
  | .enqueue data size =>
    ((q.enqueue data size true).mapError .fault).map fun r => (.flag r.1, r.2)
  | .dequeue => ((q.dequeue true).mapError .fault).map fun r => (.item r.1, r.2)
  | .peek => (q.peek.mapError .fault).map fun data => (.item data, q)
  | .lpeek => (q.lpeek.mapError .fault).map fun data => (.item data, q)
  | .purge => q.purge.map fun r => (.flag r.1, r.2)
  | .length => .ok (.count q.length, q)
  | .empty => .ok (.flag q.empty, q)

/-- The operation on a sequence: its result, and the sequence afterwards. -/
def spec (xs : List (α × ℕ)) : QueueOp α → QueueResult α × List (α × ℕ)
  | .enqueue data size => (.flag true, xs ++ [(data, size)])
  | .dequeue => (.item xs.head?, xs.tail)
  | .peek => (.item xs.head?, xs)
  | .lpeek => (.item xs.getLast?, xs)
  | .purge => (.flag (!xs.isEmpty), [])
  | .length => (.count xs.length, xs)
  | .empty => (.flag xs.isEmpty, xs)

/-- Operations one after the other, with their results. -/
def runAll (q : Queue α) : List (QueueOp α) → Except Stuck (List (QueueResult α) × Queue α)
  | [] => .ok ([], q)
  | op :: ops => do
    let (result, q) ← op.run q
    let (results, q) ← runAll q ops
    return (result :: results, q)

/-- The same on sequences. -/
def specAll (xs : List (α × ℕ)) : List (QueueOp α) → List (QueueResult α) × List (α × ℕ)
  | [] => ([], xs)
  | op :: ops => ((op.spec xs).1 :: (specAll (op.spec xs).2 ops).1, (specAll (op.spec xs).2 ops).2)

end QueueOp

/-! ### Representation -/

namespace Queue

/-- The nodes of the queue hold the blocks of the sequence. -/
def Represents (q : Queue α) (xs : List (α × ℕ)) : Prop :=
  ∃ ids, q.Repr ids ∧ ids.map q.data = xs.map some

theorem represents_new : Represents (new : Queue α) [] := ⟨[], repr_new, rfl⟩

variable {q : Queue α} {xs : List (α × ℕ)}

theorem Represents.length (h : Represents q xs) : q.length = xs.length := by
  obtain ⟨ids, hrepr, hmap⟩ := h
  have hlen := congrArg List.length hmap
  rw [List.length_map, List.length_map] at hlen
  rw [hrepr.length, hlen]

theorem Represents.empty (h : Represents q xs) : q.empty = xs.isEmpty := by
  obtain ⟨ids, hrepr, hmap⟩ := h
  rw [hrepr.empty_eq, ← List.isEmpty_map (f := q.data), hmap, List.isEmpty_map]

theorem Represents.peek (h : Represents q xs) : q.peek = .ok xs.head? := by
  obtain ⟨ids, hrepr, hmap⟩ := h
  rw [peek_spec hrepr]
  cases ids with
  | nil =>
    cases xs with
    | nil => rfl
    | cons x xs => cases hmap
  | cons a ids =>
    cases xs with
    | nil => cases hmap
    | cons x xs => exact congrArg Except.ok (List.cons.inj hmap).1

theorem Represents.lpeek (h : Represents q xs) : q.lpeek = .ok xs.getLast? := by
  obtain ⟨ids, hrepr, hmap⟩ := h
  have hlast := congrArg List.getLast? hmap
  rw [List.getLast?_map, List.getLast?_map] at hlast
  rw [lpeek_spec hrepr]
  cases hids : ids.getLast? with
  | none =>
    rw [hids] at hlast
    cases hxs : xs.getLast? with
    | none => rfl
    | some x => rw [hxs] at hlast; cases hlast
  | some a =>
    rw [hids] at hlast
    cases hxs : xs.getLast? with
    | none => rw [hxs] at hlast; cases hlast
    | some x =>
      rw [hxs] at hlast
      exact congrArg Except.ok (Option.some.inj hlast)

theorem Represents.enqueue (h : Represents q xs) (value : α) (n : ℕ) :
    ∃ q', q.enqueue value n true = .ok (true, q') ∧ Represents q' (xs ++ [(value, n)]) := by
  obtain ⟨ids, hrepr, hmap⟩ := h
  obtain ⟨q', hrun, hrepr', hdata⟩ := enqueue_spec hrepr value n
  refine ⟨q', hrun, _, hrepr', ?_⟩
  have hkept : ids.map q'.data = ids.map q.data := by
    apply List.map_congr_left
    intro a ha
    rw [hdata, if_neg (Nat.ne_of_lt (hrepr.bound a ha))]
  rw [List.map_append, List.map_append, hkept, hmap, List.map_singleton, hdata, if_pos rfl,
    List.map_singleton]

theorem Represents.dequeue (h : Represents q xs) :
    ∃ q', q.dequeue true = .ok (xs.head?, q') ∧ Represents q' xs.tail := by
  obtain ⟨ids, hrepr, hmap⟩ := h
  cases ids with
  | nil =>
    cases xs with
    | nil => exact ⟨q, dequeue_nil hrepr, [], hrepr, rfl⟩
    | cons x xs => cases hmap
  | cons a ids =>
    cases xs with
    | nil => cases hmap
    | cons x xs =>
      obtain ⟨hx, hxs⟩ := List.cons.inj hmap
      obtain ⟨c, q', hc, hrun, hrepr', hdata⟩ := dequeue_spec hrepr
      obtain rfl : c = x := Option.some.inj (hc.symm.trans hx)
      refine ⟨q', hrun, ids, hrepr', ?_⟩
      rw [List.map_congr_left hdata, hxs]
      rfl

theorem Represents.purge (h : Represents q xs) :
    ∃ q', q.purge = .ok (!xs.isEmpty, q') ∧ Represents q' [] := by
  obtain ⟨ids, hrepr, hmap⟩ := h
  obtain ⟨q', hrun, hrepr'⟩ := purge_spec hrepr
  refine ⟨q', ?_, [], hrepr', rfl⟩
  rw [hrun, ← List.isEmpty_map (f := q.data), hmap, List.isEmpty_map]

end Queue

/-! ### Runs -/

/-- One operation on a represented queue. -/
theorem QueueOp.run_eq {q : Queue α} {xs : List (α × ℕ)} (h : q.Represents xs)
    (op : QueueOp α) :
    ∃ q', op.run q = .ok ((op.spec xs).1, q') ∧ q'.Represents (op.spec xs).2 := by
  cases op with
  | enqueue data size =>
    obtain ⟨q', hrun, h'⟩ := h.enqueue data size
    exact ⟨q', by rw [run, hrun]; rfl, h'⟩
  | dequeue =>
    obtain ⟨q', hrun, h'⟩ := h.dequeue
    exact ⟨q', by rw [run, hrun]; rfl, h'⟩
  | peek => exact ⟨q, by rw [run, h.peek]; rfl, h⟩
  | lpeek => exact ⟨q, by rw [run, h.lpeek]; rfl, h⟩
  | purge =>
    obtain ⟨q', hrun, h'⟩ := h.purge
    exact ⟨q', by rw [run, hrun]; rfl, h'⟩
  | length => exact ⟨q, by rw [run, h.length]; rfl, h⟩
  | empty => exact ⟨q, by rw [run, h.empty]; rfl, h⟩

/-- A run of operations, from any represented queue. -/
theorem QueueOp.runAll_eq {q : Queue α} {xs : List (α × ℕ)} (h : q.Represents xs)
    (ops : List (QueueOp α)) :
    ∃ q', QueueOp.runAll q ops = .ok ((QueueOp.specAll xs ops).1, q') ∧
      q'.Represents (QueueOp.specAll xs ops).2 := by
  induction ops generalizing q xs with
  | nil => exact ⟨q, rfl, h⟩
  | cons op ops ih =>
    obtain ⟨q₁, hrun, h₁⟩ := op.run_eq h
    obtain ⟨q₂, hruns, h₂⟩ := ih h₁
    refine ⟨q₂, ?_, h₂⟩
    rw [QueueOp.runAll]
    exact bind_eq_ok.mpr ⟨_, hrun, bind_eq_ok.mpr ⟨_, hruns, rfl⟩⟩

/-- **A queue is first in, first out**: the operations from `Queue_new` on, in any
number and order, return what they return on the sequence.  None of them follows a
pointer to a node that has been freed, and the loop of `Queue_purge` ends. -/
theorem queue_is_fifo (ops : List (QueueOp α)) :
    ∃ q, QueueOp.runAll Queue.new ops = .ok ((QueueOp.specAll [] ops).1, q) ∧
      q.Represents (QueueOp.specAll [] ops).2 :=
  QueueOp.runAll_eq Queue.represents_new ops

/-- A queue that was emptied works again. -/
example : (QueueOp.runAll (Queue.new : Queue ℕ)
      [.enqueue 7 1, .dequeue, .lpeek, .enqueue 8 1, .enqueue 9 1, .lpeek, .dequeue]).map Prod.fst =
    .ok [.flag true, .item (some (7, 1)), .item none, .flag true, .flag true,
      .item (some (9, 1)), .item (some (8, 1))] := by
  rfl

end C2Hat
