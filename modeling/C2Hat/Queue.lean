import Mathlib.Data.List.Nodup
import C2Hat.Lib.Links

/-!
# The message queue

`src/lib/queue/queue.c` and the parts of `src/lib/cqueue/cqueue.c` that the programs
use.  A `Queue` is the queue structure with the heap of its nodes.  Dequeuing the
only node leaves `last` pointing to it; the pointer is stale until the next
`Queue_enqueue`, which does not look at it because the queue is empty.

## Main definitions

* `QueueNode`, `Queue` and the operations `enqueue`, `dequeue`, `peek`, `lpeek`,
  `purge`, `CQueue.push`, `CQueue.tryPop`.
* `Queue.Repr q ids` — the nodes of `q` are those at `ids`.
* `Fifo` — a queue that is represented, and its `contents`.

## Main results

* `enqueue_spec`, `dequeue_spec`, `purge_spec`, … — the pointer operations.
* `contents_enqueue`, `dequeue_cases` — **the queue is first in, first out**.
-/

namespace C2Hat

open Clib

/-- A node of a queue: the content and its length are the `QueueData`. -/
structure QueueNode (α : Type) where
  /-- The next node. -/
  next : Option Addr
  /-- The content, and its length. -/
  content : α
  length : ℕ

/-- A queue and its heap. -/
structure Queue (α : Type) where
  /-- The ends of the queue. -/
  first : Option Addr
  last : Option Addr
  /-- The number of nodes. -/
  length : ℕ
  /-- The nodes that are allocated. -/
  heap : Addr → Option (QueueNode α)
  /-- The address of the next allocation. -/
  fresh : Addr

namespace Queue

variable {α : Type}

/-- `Queue_new()`. -/
def new : Queue α := ⟨none, none, 0, fun _ => none, 0⟩

/-- `Queue_empty(this)`. -/
def empty (q : Queue α) : Bool := q.length == 0 || q.first == none || q.last == none

/-- Follow a pointer. -/
def deref (q : Queue α) : Option Addr → Except Fault (QueueNode α)
  | none => .error .nullDeref
  | some a =>
    match q.heap a with
    | none => .error .useAfterFree
    | some n => .ok n

/-- Write to the node behind a pointer. -/
def modify (q : Queue α) (p : Option Addr) (f : QueueNode α → QueueNode α) :
    Except Fault (Queue α) :=
  match p with
  | none => .error .nullDeref
  | some a =>
    match q.heap a with
    | none => .error .useAfterFree
    | some n => .ok { q with heap := Function.update q.heap a (some (f n)) }

/-- `QueueNode_new(content, length)`; `alloc` is whether the allocations succeed. -/
def newNode (q : Queue α) (content : α) (length : ℕ) (alloc : Bool) : Option Addr × Queue α :=
  if alloc then
    (some q.fresh, { q with
      heap := Function.update q.heap q.fresh (some ⟨none, content, length⟩)
      fresh := q.fresh + 1 })
  else (none, q)

/-- `Queue_enqueue(this, data, length)`. -/
def enqueue (q : Queue α) (data : α) (length : ℕ) (alloc : Bool) :
    Except Fault (Bool × Queue α) := do
  let (item, q) := q.newNode data length alloc
  if q.empty = true then
    return (true, { q with first := item, last := item, length := q.length + 1 })
  let q ← q.modify q.last fun n => { n with next := item }
  return (true, { q with last := item, length := q.length + 1 })

/-- `Queue_dequeue(this)`: the copied data.  When an allocation fails the first node
has been detached already. -/
def dequeue (q : Queue α) (alloc : Bool) : Except Fault (Option (α × ℕ) × Queue α) :=
  if q.empty = false then do
    let item := q.first
    let node ← q.deref item
    let q := { q with first := node.next }
    if alloc = false then return (none, q)
    return (some (node.content, node.length), { q with
      heap := fun a => if some a = item then none else q.heap a
      length := q.length - 1 })
  else .ok (none, q)

/-- `Queue_peek(this)`: the data of the first node. -/
def peek (q : Queue α) : Except Fault (Option (α × ℕ)) :=
  if q.empty = false then (q.deref q.first).map fun n => some (n.content, n.length)
  else .ok none

/-- `Queue_lpeek(this)`: the data of the last node. -/
def lpeek (q : Queue α) : Except Fault (Option (α × ℕ)) :=
  if q.empty = false then (q.deref q.last).map fun n => some (n.content, n.length)
  else .ok none

/-- The loop of `Queue_purge`, for at most so many rounds. -/
def purgeLoop : ℕ → Queue α → Except Stuck (Queue α)
  | 0, _ => .error .endless
  | rounds + 1, q =>
    match q.first with
    | none => .ok q
    | some item =>
      match q.heap item with
      | none => .error (.fault .useAfterFree)
      | some node =>
        purgeLoop rounds { q with first := node.next, heap := Function.update q.heap item none }

/-- `Queue_purge(this)`.  A chain that does not go round has no more nodes than have
been allocated. -/
def purge (q : Queue α) : Except Stuck (Bool × Queue α) :=
  if q.empty = false then
    (q.purgeLoop (q.fresh + 1)).map fun q => (true, { q with last := none, length := 0 })
  else .ok (false, q)

/-- The link stored at an address. -/
def succ (q : Queue α) (a : Addr) : Option (Option Addr) := (q.heap a).map QueueNode.next

/-- The data stored at an address. -/
def data (q : Queue α) (a : Addr) : Option (α × ℕ) :=
  (q.heap a).map fun n => (n.content, n.length)

/-- The nodes of `q` are those at `ids`, linked in this order.  Nothing is said
about `last` when there are none. -/
structure Repr (q : Queue α) (ids : List Addr) : Prop where
  /-- No address occurs twice. -/
  nodup : ids.Nodup
  /-- The ends. -/
  first : q.first = ids.head?
  last : ids ≠ [] → q.last = ids.getLast?
  /-- The number of nodes. -/
  length : q.length = ids.length
  /-- The links. -/
  next : Links q.succ ids none
  /-- Nothing else is allocated. -/
  live : ∀ a, (q.heap a).isSome ↔ a ∈ ids
  /-- Addresses are handed out in order. -/
  bound : ∀ a ∈ ids, a < q.fresh

theorem repr_new : Repr (new : Queue α) [] where
  nodup := List.nodup_nil
  first := rfl
  last := by simp
  length := rfl
  next := trivial
  live := by simp [new]
  bound := by simp

variable {q : Queue α} {ids : List Addr}

theorem Repr.empty_eq (h : Repr q ids) : q.empty = ids.isEmpty := by
  cases ids with
  | nil => simp [empty, h.length]
  | cons a t => simp [empty, h.length, h.first, h.last]

theorem Repr.heap_eq_none (h : Repr q ids) {a : Addr} (ha : a ∉ ids) : q.heap a = none := by
  rw [← Option.not_isSome_iff_eq_none, h.live]
  exact ha

theorem Repr.exists_heap (h : Repr q ids) {a : Addr} (ha : a ∈ ids) :
    ∃ n, q.heap a = some n := Option.isSome_iff_exists.mp ((h.live a).mpr ha)

/-- **Enqueuing** puts a node at the end.  In an empty queue the stale `last` is
overwritten without having been followed. -/
theorem enqueue_spec (h : Repr q ids) (value : α) (n : ℕ) :
    ∃ q', q.enqueue value n true = .ok (true, q') ∧ Repr q' (ids ++ [q.fresh]) ∧
      ∀ a, q'.data a = if a = q.fresh then some (value, n) else q.data a := by
  have hne : ∀ a ∈ ids, a ≠ q.fresh := fun a ha hf => Nat.lt_irrefl _ (hf ▸ h.bound a ha)
  have hbound : ∀ a ∈ ids ++ [q.fresh], a < q.fresh + 1 := by
    intro a ha
    rcases List.mem_append.mp ha with ha | ha
    · exact Nat.lt_succ_of_lt (h.bound a ha)
    · rw [List.mem_singleton.mp ha]
      exact Nat.lt_succ_self _
  rcases List.eq_nil_or_concat ids with rfl | ⟨t, b, rfl⟩
  · have hempty : q.empty = true := by rw [h.empty_eq]; rfl
    have hheap : ∀ a, q.heap a = none := fun a => h.heap_eq_none (by simp)
    have hrun : q.enqueue value n true = .ok (true, { q with
        first := some q.fresh
        last := some q.fresh
        length := q.length + 1
        heap := Function.update q.heap q.fresh (some ⟨none, value, n⟩)
        fresh := q.fresh + 1 }) := by
      simp only [enqueue, newNode, if_true]
      exact if_pos hempty
    refine ⟨_, hrun, ⟨by simp, rfl, fun _ => rfl, by simp [h.length], ?_, ?_, hbound⟩, ?_⟩
    · simp [Links, succ]
    · intro a
      by_cases ha : a = q.fresh <;> simp [ha, hheap]
    · intro a
      by_cases ha : a = q.fresh <;> simp [data, ha]
  · rw [List.concat_eq_append] at h hbound hne ⊢
    have hempty : ¬ q.empty = true := by rw [h.empty_eq]; simp
    obtain ⟨nb, hnb⟩ := h.exists_heap (a := b) (by simp)
    have hbf : b ≠ q.fresh := hne b (by simp)
    have hlast : q.last = some b := by rw [h.last (by simp)]; simp
    have hbt : b ∉ t := by
      have := h.nodup
      rw [List.nodup_append] at this
      exact fun hb => this.2.2 b hb b (by simp) rfl
    have hrun : q.enqueue value n true = .ok (true, { q with
        last := some q.fresh
        length := q.length + 1
        heap := Function.update (Function.update q.heap q.fresh (some ⟨none, value, n⟩)) b
          (some { nb with next := some q.fresh })
        fresh := q.fresh + 1 }) := by
      simp only [enqueue, newNode, if_true]
      refine (if_neg hempty).trans ?_
      simp [bind, Except.bind, modify, hlast, hbf, hnb, pure, Except.pure]
    refine ⟨_, hrun, ⟨?_, ?_, fun _ => by simp, ?_, ?_, ?_, hbound⟩, ?_⟩
    · exact List.nodup_append.mpr ⟨h.nodup, by simp, by
        intro a ha c hc
        rw [List.mem_singleton.mp hc]
        exact hne a ha⟩
    · rw [h.first, List.head?_append (l := t ++ [b])]
      simp
    · simp [h.length]
    · rw [links_append]
      refine ⟨links_redirect h.next (by simp [succ]) fun a ha => ?_, ?_⟩
      · have hab : a ≠ b := fun hab => hbt (hab ▸ ha)
        simp [succ, hab, hne a (by simp [ha])]
      · simp [Links, succ, hbf.symm]
    · intro a
      by_cases hab : a = b
      · simp [hab]
      · by_cases haf : a = q.fresh
        · simp [haf, hbf.symm]
        · simp [hab, haf, h.live]
    · intro a
      by_cases hab : a = b
      · simp [data, hab, hbf, hnb]
      · by_cases haf : a = q.fresh
        · simp [data, haf, hbf.symm]
        · simp [data, hab, haf]

/-- **Dequeuing** takes the first node. -/
theorem dequeue_spec {x : Addr} {t : List Addr} (h : Repr q (x :: t)) :
    ∃ c q', q.data x = some c ∧ q.dequeue true = .ok (some c, q') ∧ Repr q' t ∧
      ∀ a ∈ t, q'.data a = q.data a := by
  obtain ⟨n, hn⟩ := h.exists_heap (a := x) (by simp)
  have hnext : n.next = t.head? := by simpa [succ, hn] using h.next.1
  have hempty : q.empty = false := by rw [h.empty_eq]; rfl
  have hx : x ∉ t := (List.nodup_cons.mp h.nodup).1
  have hne : ∀ a ∈ t, a ≠ x := fun a ha hax => hx (hax ▸ ha)
  refine ⟨(n.content, n.length), { q with
      first := t.head?
      heap := fun a => if a = x then none else q.heap a
      length := q.length - 1 }, by simp [data, hn], ?_, ?_, ?_⟩
  · simp [dequeue, hempty, h.first, deref, hn, hnext, bind, Except.bind, pure, Except.pure]
  · refine ⟨(List.nodup_cons.mp h.nodup).2, rfl, fun ht => ?_, ?_, ?_, ?_, ?_⟩
    · show q.last = _
      obtain ⟨b, t', rfl⟩ := List.exists_cons_of_ne_nil ht
      rw [h.last (by simp)]
      simp
    · simp [h.length]
    · exact links_congr (fun a ha => by simp [succ, hne a ha]) h.next.2
    · intro a
      by_cases ha : a = x
      · simp [ha, hx]
      · simp [ha, h.live]
    · exact fun a ha => h.bound a (by simp [ha])
  · intro a ha
    simp [data, hne a ha]

theorem dequeue_nil (h : Repr q []) : q.dequeue true = .ok (none, q) := by
  have hempty : ¬ q.empty = false := by rw [h.empty_eq]; simp
  rw [dequeue, if_neg hempty]

theorem peek_spec (h : Repr q ids) : q.peek = .ok (ids.head?.bind q.data) := by
  cases ids with
  | nil =>
    have hempty : ¬ q.empty = false := by rw [h.empty_eq]; simp
    rw [peek, if_neg hempty]
    rfl
  | cons x t =>
    have hempty : q.empty = false := by rw [h.empty_eq]; rfl
    obtain ⟨n, hn⟩ := h.exists_heap (a := x) (by simp)
    simp [peek, hempty, h.first, deref, hn, data, Except.map]

/-- The last pointer is followed only when there is a last node. -/
theorem lpeek_spec (h : Repr q ids) : q.lpeek = .ok (ids.getLast?.bind q.data) := by
  rcases List.eq_nil_or_concat ids with rfl | ⟨t, b, rfl⟩
  · have hempty : ¬ q.empty = false := by rw [h.empty_eq]; simp
    rw [lpeek, if_neg hempty]
    rfl
  · rw [List.concat_eq_append] at h ⊢
    have hempty : q.empty = false := by rw [h.empty_eq]; simp
    obtain ⟨n, hn⟩ := h.exists_heap (a := b) (by simp)
    have hlast : q.last = some b := by rw [h.last (by simp)]; simp
    simp [lpeek, hempty, hlast, deref, hn, data, Except.map]

/-- The loop frees the nodes of a chain and ends behind the last one. -/
theorem purgeLoop_eq {rounds : ℕ} (hfirst : q.first = ids.head?) (hnodup : ids.Nodup)
    (hlinks : Links q.succ ids none) (hrounds : ids.length < rounds) :
    q.purgeLoop rounds = .ok { q with
      first := none
      heap := fun a => if a ∈ ids then none else q.heap a } := by
  induction ids generalizing q rounds with
  | nil =>
    obtain ⟨r, rfl⟩ := Nat.exists_eq_add_one.mpr hrounds
    have hnone : q.first = none := hfirst
    simp only [purgeLoop, hnone, List.not_mem_nil, if_false]
    rw [← hnone]
  | cons x t ih =>
    obtain ⟨r, rfl⟩ := Nat.exists_eq_add_one.mpr (Nat.zero_lt_of_lt hrounds)
    have hx : q.first = some x := hfirst
    obtain ⟨n, hn, hnext⟩ := Option.map_eq_some_iff.mp hlinks.1
    rw [List.nodup_cons] at hnodup
    rw [purgeLoop, hx]
    simp only [hn]
    rw [ih (by simpa using hnext) hnodup.2 ?_ (by simpa using hrounds)]
    · congr 2
      funext a
      by_cases ha : a = x <;> simp [ha]
    · refine links_congr (fun a ha => ?_) hlinks.2
      have hax : a ≠ x := fun hax => hnodup.1 (hax ▸ ha)
      simp [succ, hax]

/-- **Purging** takes all nodes, and the stale pointer with them. -/
theorem purge_spec (h : Repr q ids) :
    ∃ q', q.purge = .ok (!ids.isEmpty, q') ∧ Repr q' [] := by
  cases ids with
  | nil =>
    have hempty : ¬ q.empty = false := by rw [h.empty_eq]; simp
    refine ⟨q, ?_, h⟩
    rw [purge, if_neg hempty]
    rfl
  | cons x t =>
    have hempty : q.empty = false := by rw [h.empty_eq]; rfl
    have hloop := purgeLoop_eq h.first h.nodup h.next 
      (Nat.lt_succ_of_le (length_le_of_bounded h.nodup h.bound))
    refine ⟨_, by rw [purge, if_pos hempty, hloop]; rfl, ?_⟩
    refine ⟨List.nodup_nil, rfl, by simp, rfl, trivial, ?_, by simp⟩
    intro a
    by_cases ha : a ∈ x :: t
    · simp [ha]
    · simp [ha, h.heap_eq_none ha]

end Queue

/-! ### Queues that are in order -/

/-- A queue together with the addresses of its nodes. -/
structure Fifo (α : Type) where
  /-- The queue. -/
  queue : Queue α
  /-- The addresses of its nodes. -/
  ids : List Addr
  /-- They are in order. -/
  repr : queue.Repr ids

namespace Fifo

variable {α : Type}

/-- What is in the queue, from first to last. -/
def contents (f : Fifo α) : List (α × ℕ) := f.ids.filterMap f.queue.data

/-- `Queue_new()`. -/
def new : Fifo α := ⟨.new, [], Queue.repr_new⟩

/-- The queue behind a result that is never a fault. -/
def settle {β : Type} (q : Queue α) (r : Except Fault (β × Queue α)) : Queue α :=
  match r with
  | .ok r => r.2
  | .error _ => q

/-- `Queue_enqueue`, with allocations that succeed. -/
def enqueue (f : Fifo α) (value : α) (n : ℕ) : Fifo α where
  queue := settle f.queue (f.queue.enqueue value n true)
  ids := f.ids ++ [f.queue.fresh]
  repr := by
    obtain ⟨q', hrun, hrepr, -⟩ := Queue.enqueue_spec f.repr value n
    rw [hrun]
    exact hrepr

/-- `Queue_dequeue`, with allocations that succeed: the queue that is left. -/
def rest (f : Fifo α) : Fifo α where
  queue := settle f.queue (f.queue.dequeue true)
  ids := f.ids.tail
  repr := by
    obtain ⟨q, ids, hrepr⟩ := f
    cases ids with
    | nil =>
      rw [Queue.dequeue_nil hrepr]
      exact hrepr
    | cons x t =>
      obtain ⟨c, q', -, hrun, hrepr', -⟩ := Queue.dequeue_spec hrepr
      rw [hrun]
      exact hrepr'

/-- `Queue_dequeue`: the data that is returned, and the queue that is left. -/
def dequeue (f : Fifo α) : Except Fault (Option (α × ℕ) × Fifo α) :=
  (f.queue.dequeue true).map fun r => (r.1, f.rest)

@[simp] theorem contents_new : (new : Fifo α).contents = [] := rfl

/-- **First in**: what is enqueued comes last. -/
theorem contents_enqueue (f : Fifo α) (value : α) (n : ℕ) :
    (f.enqueue value n).contents = f.contents ++ [(value, n)] := by
  obtain ⟨q', hrun, -, hdata⟩ := Queue.enqueue_spec f.repr value n
  have hqueue : (f.enqueue value n).queue = q' := by
    show settle f.queue (f.queue.enqueue value n true) = q'
    rw [hrun]
    rfl
  have hids : (f.enqueue value n).ids = f.ids ++ [f.queue.fresh] := rfl
  rw [contents, hqueue, hids, List.filterMap_append, contents]
  congr 1
  · apply List.filterMap_congr
    intro a ha
    rw [hdata, if_neg]
    exact fun h => Nat.lt_irrefl _ (h ▸ f.repr.bound a ha)
  · simp [hdata]

/-- **First out**: what is dequeued is the first, and the others stay. -/
theorem dequeue_cases (f : Fifo α) :
    f.dequeue = .ok (f.contents.head?, f.rest) ∧ f.rest.contents = f.contents.tail := by
  obtain ⟨q, ids, hrepr⟩ := f
  cases ids with
  | nil =>
    refine ⟨?_, rfl⟩
    simp only [dequeue, Queue.dequeue_nil hrepr]
    rfl
  | cons x t =>
    obtain ⟨c, q', hc, hrun, -, hdata⟩ := Queue.dequeue_spec hrepr
    have hcontents : (⟨q, x :: t, hrepr⟩ : Fifo α).contents = c :: t.filterMap q.data := by
      simp [contents, hc]
    have hqueue : (⟨q, x :: t, hrepr⟩ : Fifo α).rest.queue = q' := by
      show settle q (q.dequeue true) = q'
      rw [hrun]
      rfl
    rw [hcontents]
    refine ⟨?_, ?_⟩
    · simp only [dequeue, hrun]
      rfl
    · rw [contents, hqueue]
      exact List.filterMap_congr hdata

/-- A queue that is not empty has a first item. -/
theorem head?_contents_ne_none {f : Fifo α} (h : f.queue.empty = false) :
    f.contents.head? ≠ none := by
  obtain ⟨q, ids, hrepr⟩ := f
  cases ids with
  | nil =>
    change q.empty = false at h
    rw [hrepr.empty_eq] at h
    cases h
  | cons x t =>
    obtain ⟨c, -, hc, -⟩ := Queue.dequeue_spec hrepr
    simp [contents, hc]

end Fifo

/-! ### The concurrent queue

Each locked section is one step, so a `CQueue` is its queue; `none` is `NULL`. -/

/-- `CQueue_push(this, data, length)`. -/
def CQueue.push {α : Type} (this : Option (Fifo α)) (data : α) (length : ℕ) :
    Bool × Option (Fifo α) :=
  match this with
  | none => (false, none)
  | some f => (true, some (f.enqueue data length))

/-- `CQueue_tryPop(this)`. -/
def CQueue.tryPop {α : Type} (this : Option (Fifo α)) :
    Except Fault (Option (α × ℕ) × Option (Fifo α)) :=
  match this with
  | none => .error .nullDeref
  | some f =>
    if f.queue.empty = true then .ok (none, some f)
    else f.dequeue.map fun r => (r.1, some r.2)

/-- What `CQueue_tryPop` does to a queue that exists. -/
theorem CQueue.tryPop_cases {α : Type} {f : Fifo α} {r : Option (α × ℕ) × Option (Fifo α)}
    (h : CQueue.tryPop (some f) = .ok r) :
    ∃ f', r = (f.contents.head?, some f') ∧ f'.contents = f.contents.tail := by
  by_cases hempty : f.queue.empty = true
  · rw [CQueue.tryPop, if_pos hempty] at h
    cases h
    have hids : f.ids = [] := by simpa [f.repr.empty_eq] using hempty
    have hcontents : f.contents = [] := by rw [Fifo.contents, hids]; rfl
    exact ⟨f, by rw [hcontents]; rfl, by rw [hcontents]; rfl⟩
  · rw [CQueue.tryPop, if_neg hempty, f.dequeue_cases.1] at h
    cases h
    exact ⟨f.rest, rfl, f.dequeue_cases.2⟩

end C2Hat
