import Mathlib.Data.List.Nodup
import C2Hat.Lib.Links

/-!
# The doubly linked list

`src/lib/list/list.c`.  A `CList` is the list structure together with the heap its
nodes live in; every operation follows pointers and runs into a `Fault` when one of
them is `NULL` or dangling.  The data of a node is allocated and freed with the
node, so the address of the node stands for the data pointer too.

The cursor `current` is a field of the list that `List_insert` and `List_delete`
also write, but `List_delete` looks at it only when the first node goes: it may be
left pointing to a node that has been freed.

## Main definitions

* `ListNode`, `CList` and the operations `insert`, `append`, `prepend`, `delete`,
  `update`, `next`, `prev`, `rewind`, `search`, `item`, `getFirst`, `getLast`.
* `CList.Repr l ids` — the nodes of `l` are those at `ids`, in this order.

## Main results

* `append_spec`, `delete_spec`, `search_spec`, … — what the operations do to a
  represented list.
-/

namespace C2Hat

open Clib

/-- A node of a list. -/
structure ListNode (α : Type) where
  /-- The previous node. -/
  prev : Option Addr
  /-- The next node. -/
  next : Option Addr
  /-- The data, and its size. -/
  data : α
  dataSize : ℕ

/-- A list and its heap. -/
structure CList (α : Type) where
  /-- The ends of the list and the cursor. -/
  first : Option Addr
  last : Option Addr
  current : Option Addr
  /-- The number of nodes. -/
  length : ℕ
  /-- The nodes that are allocated. -/
  heap : Addr → Option (ListNode α)
  /-- The address of the next allocation. -/
  fresh : Addr

namespace CList

variable {α : Type}

/-- `List_new()`. -/
def new : CList α := ⟨none, none, none, 0, fun _ => none, 0⟩

/-- `List_empty(this)`. -/
def empty (l : CList α) : Bool := l.length == 0 || l.first == none

/-- Follow a pointer. -/
def deref (l : CList α) : Option Addr → Except Fault (ListNode α)
  | none => .error .nullDeref
  | some a =>
    match l.heap a with
    | none => .error .useAfterFree
    | some n => .ok n

/-- Write to the node behind a pointer. -/
def modify (l : CList α) (p : Option Addr) (f : ListNode α → ListNode α) :
    Except Fault (CList α) :=
  match p with
  | none => .error .nullDeref
  | some a =>
    match l.heap a with
    | none => .error .useAfterFree
    | some n => .ok { l with heap := Function.update l.heap a (some (f n)) }

/-- The link stored at an address. -/
def succ (l : CList α) (a : Addr) : Option (Option Addr) := (l.heap a).map ListNode.next

/-- The backward link stored at an address. -/
def pred (l : CList α) (a : Addr) : Option (Option Addr) := (l.heap a).map ListNode.prev

/-- `ListNode_new(value, valueSize)`; `alloc` is whether the allocations succeed. -/
def newNode (l : CList α) (value : α) (valueSize : ℕ) (alloc : Bool) : Option Addr × CList α :=
  if alloc then
    (some l.fresh, { l with
      heap := Function.update l.heap l.fresh (some ⟨none, none, value, valueSize⟩)
      fresh := l.fresh + 1 })
  else (none, l)

/-- `List_insert(this, value, valueSize, pos)`. -/
def insert (l : CList α) (value : α) (valueSize : ℕ) (pos : ℤ) (alloc : Bool) :
    Except Fault (Bool × CList α) :=
  if 0 ≤ pos ∧ pos ≤ l.length then do
    let (item, l) := l.newNode value valueSize alloc
    if l.first = none then
      -- the list was empty, and this is its first node
      return (true, { l with first := item, current := item, last := item, length := l.length + 1 })
    let cursor ← follow l.succ pos.toNat l.first
    if cursor = none then
      -- past the last node: the item is appended
      let l ← l.modify item fun n => { n with prev := l.last }
      let l ← l.modify l.last fun n => { n with next := item }
      return (true, { l with last := item, length := l.length + 1 })
    let l ← l.modify item fun n => { n with next := cursor }
    let node ← l.deref cursor
    let l ← l.modify item fun n => { n with prev := node.prev }
    let l ← if node.prev ≠ none then l.modify node.prev fun n => { n with next := item }
      else .ok { l with first := item }
    let l ← l.modify cursor fun n => { n with prev := item }
    return (true, { l with length := l.length + 1 })
  else return (false, l)

/-- `List_append(this, value, valueSize)`. -/
def append (l : CList α) (value : α) (valueSize : ℕ) (alloc : Bool) :
    Except Fault (Bool × CList α) :=
  l.insert value valueSize l.length alloc

/-- `List_prepend(this, value, valueSize)`. -/
def prepend (l : CList α) (value : α) (valueSize : ℕ) (alloc : Bool) :
    Except Fault (Bool × CList α) :=
  l.insert value valueSize 0 alloc

/-- `List_delete(this, pos)`. -/
def delete (l : CList α) (pos : ℤ) : Except Fault (Bool × CList α) :=
  if l.empty = false ∧ 0 ≤ pos ∧ pos < l.length then do
    let n ← follow l.succ pos.toNat l.first
    let node ← l.deref n
    let pn := node.prev
    let nn := node.next
    let l ← if pn = none then do
        -- the first node goes: the cursor is moved along with `first`
        let first ← l.deref l.first
        .ok { l with current := first.next, first := first.next }
      else l.modify pn fun m => { m with next := nn }
    let l ← if nn = none then .ok { l with last := pn }
      else l.modify nn fun m => { m with prev := pn }
    return (true, { l with
      heap := fun a => if some a = n then none else l.heap a
      length := l.length - 1 })
  else return (false, l)

/-- `List_update(this, value, valueSize, pos)`.  The old data is freed before the new
data is allocated; `null` stands for the data behind the null pointer that is left in
the node when this fails. -/
def update (l : CList α) (value : α) (valueSize : ℕ) (pos : ℤ) (alloc : Bool) (null : α) :
    Except Fault (Bool × CList α) :=
  if l.empty = false ∧ 0 ≤ pos ∧ pos < l.length then do
    let n ← follow l.succ pos.toNat l.first
    if alloc then
      let l ← l.modify n fun m => { m with data := value, dataSize := valueSize }
      return (true, l)
    else
      let l ← l.modify n fun m => { m with data := null }
      return (false, l)
  else return (false, l)

/-- `List_next(this)`: the node whose data is returned. -/
def next (l : CList α) : Except Fault (Option Addr × CList α) :=
  match l.current with
  | none => .ok (none, l)
  | some a => do
    let node ← l.deref (some a)
    return (some a, { l with current := node.next })

/-- `List_prev(this)`. -/
def prev (l : CList α) : Except Fault (Option Addr × CList α) :=
  match l.current with
  | none => .ok (none, l)
  | some a => do
    let node ← l.deref (some a)
    return (some a, { l with current := node.prev })

/-- `List_rewind(this)`. -/
def rewind (l : CList α) : Bool × CList α :=
  if l.empty = false then (true, { l with current := l.first }) else (false, l)

/-- `List_first(this)`. -/
def getFirst (l : CList α) : Option Addr := if l.empty = false then l.first else none

/-- `List_last(this)`. -/
def getLast (l : CList α) : Option Addr := if l.empty = false then l.last else none

/-- The loop of `List_search` from node `n` at position `pos` on, for `left` more
positions. -/
def searchFrom (l : CList α) (needleSize : ℕ) (found : α → Bool) :
    ℕ → Option Addr → ℤ → Except Fault ℤ
  | 0, _, _ => .ok (-1)
  | left + 1, n, pos => do
    let node ← l.deref n
    if node.dataSize = needleSize ∧ found node.data = true then return pos
    searchFrom l needleSize found left node.next (pos + 1)

/-- `List_search(this, needle, needleSize, compare)`; `found` is whether the
comparison with the needle is zero. -/
def search (l : CList α) (needleSize : ℕ) (found : α → Bool) : Except Fault ℤ :=
  if l.empty = false then l.searchFrom needleSize found l.length l.first 0 else .ok (-1)

/-- `List_item(this, pos)`. -/
def item (l : CList α) (pos : ℤ) : Except Fault (Option Addr) :=
  if l.empty = false ∧ 0 ≤ pos ∧ pos < l.length then follow l.succ pos.toNat l.first
  else .ok none

/-- The data of a node, and its size. -/
def content (l : CList α) (a : Addr) : Option (α × ℕ) :=
  (l.heap a).map fun n => (n.data, n.dataSize)

/-- Write to the data of a node. -/
def modifyData (l : CList α) (a : Addr) (f : α → α) : Except Fault (CList α) :=
  l.modify (some a) fun n => { n with data := f n.data }

/-! ### Represented lists -/

/-- The nodes of `l` are those at `ids`, linked in this order in both directions. -/
structure Repr (l : CList α) (ids : List Addr) : Prop where
  /-- No address occurs twice. -/
  nodup : ids.Nodup
  /-- The ends. -/
  first : l.first = ids.head?
  last : l.last = ids.getLast?
  /-- The number of nodes. -/
  length : l.length = ids.length
  /-- The links in both directions. -/
  next : Links l.succ ids none
  prev : Links l.pred ids.reverse none
  /-- Nothing else is allocated. -/
  live : ∀ a, (l.heap a).isSome ↔ a ∈ ids
  /-- Addresses are handed out in order. -/
  bound : ∀ a ∈ ids, a < l.fresh

theorem repr_new : Repr (new : CList α) [] where
  nodup := List.nodup_nil
  first := rfl
  last := rfl
  length := rfl
  next := trivial
  prev := trivial
  live := by simp [new]
  bound := by simp

variable {l : CList α} {ids : List Addr}

theorem Repr.empty_eq (h : Repr l ids) : l.empty = ids.isEmpty := by
  cases ids with
  | nil => simp [empty, h.length]
  | cons a t => simp [empty, h.length, h.first]

theorem Repr.fresh_not_mem (h : Repr l ids) : l.fresh ∉ ids :=
  fun hmem => Nat.lt_irrefl _ (h.bound _ hmem)

theorem Repr.heap_eq_none (h : Repr l ids) {a : Addr} (ha : a ∉ ids) : l.heap a = none := by
  rw [← Option.not_isSome_iff_eq_none, h.live]
  exact ha

theorem Repr.exists_heap (h : Repr l ids) {a : Addr} (ha : a ∈ ids) :
    ∃ n, l.heap a = some n := Option.isSome_iff_exists.mp ((h.live a).mpr ha)

/-- The cursor plays no part. -/
theorem Repr.setCurrent (h : Repr l ids) (c : Option Addr) : Repr { l with current := c } ids :=
  { h with }

theorem modify_eq {a : Addr} {n : ListNode α} (hn : l.heap a = some n)
    (f : ListNode α → ListNode α) :
    l.modify (some a) f = .ok { l with heap := Function.update l.heap a (some (f n)) } := by
  simp only [modify, hn]

/-- The two lists differ at most in the data of their nodes. -/
structure SameShape (l l' : CList α) : Prop where
  first : l'.first = l.first
  last : l'.last = l.last
  current : l'.current = l.current
  length : l'.length = l.length
  fresh : l'.fresh = l.fresh
  succ : ∀ a, l'.succ a = l.succ a
  pred : ∀ a, l'.pred a = l.pred a

theorem SameShape.refl (l : CList α) : SameShape l l :=
  ⟨rfl, rfl, rfl, rfl, rfl, fun _ => rfl, fun _ => rfl⟩

theorem SameShape.trans {l l' l'' : CList α} (h : SameShape l l') (h' : SameShape l' l'') :
    SameShape l l'' where
  first := h'.first.trans h.first
  last := h'.last.trans h.last
  current := h'.current.trans h.current
  length := h'.length.trans h.length
  fresh := h'.fresh.trans h.fresh
  succ a := (h'.succ a).trans (h.succ a)
  pred a := (h'.pred a).trans (h.pred a)

theorem SameShape.isSome {l l' : CList α} (h : SameShape l l') (a : Addr) :
    (l'.heap a).isSome = (l.heap a).isSome := by
  simpa [CList.succ] using congrArg Option.isSome (h.succ a)

theorem Repr.of_sameShape {l' : CList α} (h : Repr l ids) (hsame : SameShape l l') :
    Repr l' ids where
  nodup := h.nodup
  first := hsame.first.trans h.first
  last := hsame.last.trans h.last
  length := hsame.length.trans h.length
  next := links_congr (fun a _ => hsame.succ a) h.next
  prev := links_congr (fun a _ => hsame.pred a) h.prev
  live a := by
    rw [hsame.isSome a]
    exact h.live a
  bound a ha := by
    rw [hsame.fresh]
    exact h.bound a ha

/-- Writing to the data of a node. -/
theorem sameShape_modify {a : Addr} {n : ListNode α} (hn : l.heap a = some n)
    {f : ListNode α → ListNode α} (hnext : (f n).next = n.next) (hprev : (f n).prev = n.prev) :
    SameShape l { l with heap := Function.update l.heap a (some (f n)) } where
  first := rfl
  last := rfl
  current := rfl
  length := rfl
  fresh := rfl
  succ b := by
    by_cases hb : b = a
    · simp [succ, hb, hn, hnext]
    · simp [succ, hb]
  pred b := by
    by_cases hb : b = a
    · simp [pred, hb, hn, hprev]
    · simp [pred, hb]

/-- What is stored in a node of the list. -/
theorem Repr.node {l₁ l₂ : List Addr} {x : Addr} (h : Repr l (l₁ ++ x :: l₂)) :
    ∃ n, l.heap x = some n ∧ n.next = l₂.head? ∧ n.prev = l₁.getLast? := by
  obtain ⟨n, hn⟩ := h.exists_heap (a := x) (by simp)
  have hnext := h.next
  have hprev := h.prev
  rw [links_append] at hnext
  rw [List.reverse_append, List.reverse_cons, List.append_assoc, List.singleton_append,
    links_append] at hprev
  refine ⟨n, hn, ?_, ?_⟩
  · simpa [succ, hn] using hnext.2.1
  · simpa [pred, hn] using hprev.2.1

theorem Repr.inRange {l₁ l₂ : List Addr} {x : Addr} (h : Repr l (l₁ ++ x :: l₂)) :
    l.empty = false ∧ (0 : ℤ) ≤ l₁.length ∧ (l₁.length : ℤ) < l.length := by
  rw [h.empty_eq, h.length]
  refine ⟨by simp, by omega, ?_⟩
  rw [List.length_append, List.length_cons]
  omega

/-- The walk to a position of the list. -/
theorem Repr.walk {l₁ l₂ : List Addr} {x : Addr} (h : Repr l (l₁ ++ x :: l₂)) :
    follow l.succ l₁.length l.first = .ok (some x) := by
  rw [h.first, follow_eq h.next (by simp)]
  simp

/-- `prev` is the inverse of `next`. -/
theorem Repr.succ_iff_pred (h : Repr l ids) (a b : Addr) :
    l.succ a = some (some b) ↔ l.pred b = some (some a) := by
  constructor
  · intro hsucc
    obtain ⟨n, hn, hnext⟩ := Option.map_eq_some_iff.mp hsucc
    obtain ⟨l₁, l₂, rfl⟩ := List.append_of_mem ((h.live a).mp (by simp [hn]))
    obtain ⟨n', hn', hnext', -⟩ := h.node
    cases hn.symm.trans hn'
    obtain ⟨t, rfl⟩ := List.head?_eq_some_iff.mp (hnext'.symm.trans hnext)
    have hb : Repr l (l₁ ++ [a] ++ b :: t) := by simpa using h
    obtain ⟨m, hm, -, hprev⟩ := hb.node
    simp [pred, hm, hprev]
  · intro hpred
    obtain ⟨n, hn, hprev⟩ := Option.map_eq_some_iff.mp hpred
    obtain ⟨l₁, l₂, rfl⟩ := List.append_of_mem ((h.live b).mp (by simp [hn]))
    obtain ⟨n', hn', -, hprev'⟩ := h.node
    cases hn.symm.trans hn'
    obtain ⟨t, rfl⟩ := List.getLast?_eq_some_iff.mp (hprev'.symm.trans hprev)
    have ha : Repr l (t ++ a :: b :: l₂) := by simpa using h
    obtain ⟨m, hm, hnext, -⟩ := ha.node
    simp [succ, hm, hnext]

section Insert

variable {l₁ l₂ : List Addr}

/-- The heap after a node has been allocated and linked in. -/
def linked (l : CList α) (value : α) (valueSize : ℕ) (l₁ l₂ : List Addr) (a : Addr) :
    Option (ListNode α) :=
  if a = l.fresh then some ⟨l₁.getLast?, l₂.head?, value, valueSize⟩
  else if some a = l₁.getLast? then (l.heap a).map fun n => { n with next := some l.fresh }
  else if some a = l₂.head? then (l.heap a).map fun n => { n with prev := some l.fresh }
  else l.heap a

theorem insert_run (h : Repr l (l₁ ++ l₂)) (value : α) (valueSize : ℕ) :
    l.insert value valueSize l₁.length true = .ok (true, { l with
      first := (l₁ ++ l.fresh :: l₂).head?
      last := (l₁ ++ l.fresh :: l₂).getLast?
      current := if l₁ ++ l₂ = [] then some l.fresh else l.current
      length := l.length + 1
      heap := l.linked value valueSize l₁ l₂
      fresh := l.fresh + 1 }) := by
  have hpos : (0 : ℤ) ≤ l₁.length ∧ (l₁.length : ℤ) ≤ l.length := by
    rw [h.length, List.length_append]
    omega
  have hfresh := h.fresh_not_mem
  have hne : ∀ a ∈ l₁ ++ l₂, a ≠ l.fresh := fun a ha hf => hfresh (hf ▸ ha)
  have hfirst := h.first
  have hlast := h.last
  -- the walk to the position does not meet the new node
  have hfollow : follow (fun a => (Function.update l.heap l.fresh
      (some ⟨none, none, value, valueSize⟩) a).map ListNode.next) l₁.length l.first =
      .ok l₂.head? := by
    rw [h.first, follow_eq (links_congr (fun a ha => ?_) h.next) (by simp)]
    · cases l₂ <;> simp
    · simp [succ, hne a ha]
  simp only [insert, if_pos hpos, newNode, if_true, Int.toNat_natCast]
  rcases List.eq_nil_or_concat l₁ with rfl | ⟨t₁, p, rfl⟩
  · cases l₂ with
    | nil =>
      have hfirst' : l.first = none := hfirst
      simp only [hfirst', if_true]
      congr 3
      funext a
      by_cases ha : a = l.fresh <;> simp [linked, ha]
    | cons q t₂ =>
      have hq : Repr l ([] ++ q :: t₂) := h
      obtain ⟨nq, hnq, -, hprev⟩ := hq.node
      have hprev' : nq.prev = none := hprev
      have hqf := hne q (by simp)
      have hfirst' : l.first = some q := hfirst
      rw [if_neg (by simp [hfirst'])]
      show (follow (fun a => (Function.update l.heap l.fresh _ a).map ListNode.next) _
        l.first >>= _) = _
      rw [hfollow]
      simp [bind, Except.bind, modify, deref, hqf, hnq, hprev', hlast, pure, Except.pure]
      funext a
      by_cases haf : a = l.fresh
      · simp [linked, haf, hqf.symm]
      · by_cases haq : a = q <;> simp [linked, haf, haq, hnq, hqf]
  · rw [List.concat_eq_append] at *
    obtain ⟨np, hnp⟩ := h.exists_heap (a := p) (by simp)
    have hpf := hne p (by simp)
    have hfirst' : ¬ l.first = none := by
      rw [hfirst]
      simp
    rw [if_neg hfirst']
    show (follow (fun a => (Function.update l.heap l.fresh _ a).map ListNode.next) _
      l.first >>= _) = _
    rw [hfollow]
    cases l₂ with
    | nil =>
      have hlast' : l.last = some p := by
        rw [hlast]
        simp
      simp [bind, Except.bind, modify, hlast', hpf, hnp, hfirst, pure, Except.pure]
      funext a
      by_cases haf : a = l.fresh
      · simp [linked, haf, hpf.symm]
      · by_cases hap : a = p <;> simp [linked, haf, hap, hnp, hpf]
    | cons q t₂ =>
      obtain ⟨nq, hnq, -, hprev⟩ := h.node
      have hprev' : nq.prev = some p := by simpa using hprev
      have hqf := hne q (by simp)
      have hpq : p ≠ q := by
        have hnodup := h.nodup
        rw [List.nodup_append] at hnodup
        exact hnodup.2.2 p (by simp) q (by simp)
      simp [bind, Except.bind, modify, deref, hqf, hpf, hnq, hnp, hpq.symm, hprev', hfirst, hlast,
        pure, Except.pure]
      funext a
      by_cases haf : a = l.fresh
      · simp [linked, haf, hqf.symm, hpf.symm]
      · by_cases haq : a = q
        · simp [linked, haq, hnq, hqf, hpq.symm]
        · by_cases hap : a = p <;> simp [linked, haf, haq, hap, hnp, hpf, hpq]

theorem linked_next {value : α} {valueSize : ℕ} {a : Addr} (ha : a ≠ l.fresh)
    (hlast : ¬ some a = l₁.getLast?) :
    (l.linked value valueSize l₁ l₂ a).map ListNode.next = l.succ a := by
  rw [linked, if_neg ha, if_neg hlast]
  split <;> simp [succ, Function.comp_def]

theorem linked_prev {value : α} {valueSize : ℕ} {a : Addr} (ha : a ≠ l.fresh)
    (hhead : ¬ some a = l₂.head?) :
    (l.linked value valueSize l₁ l₂ a).map ListNode.prev = l.pred a := by
  rw [linked, if_neg ha, if_neg hhead]
  split <;> simp [pred, Function.comp_def]

theorem linked_content {value : α} {valueSize : ℕ} {a : Addr} (ha : a ≠ l.fresh) :
    (l.linked value valueSize l₁ l₂ a).map (fun n => (n.data, n.dataSize)) = l.content a := by
  rw [linked, if_neg ha]
  split
  · simp [content, Function.comp_def]
  · split <;> simp [content, Function.comp_def]

theorem isSome_linked {value : α} {valueSize : ℕ} {a : Addr} (ha : a ≠ l.fresh) :
    (l.linked value valueSize l₁ l₂ a).isSome = (l.heap a).isSome := by
  rw [linked, if_neg ha]
  split
  · simp
  · split <;> simp

/-- **Inserting**: the new node comes to the position, and the cursor stays unless the
list was empty. -/
theorem insert_spec (h : Repr l (l₁ ++ l₂)) (value : α) (valueSize : ℕ) :
    ∃ l', l.insert value valueSize l₁.length true = .ok (true, l') ∧
      Repr l' (l₁ ++ l.fresh :: l₂) ∧
      l'.current = (if l₁ ++ l₂ = [] then some l.fresh else l.current) ∧ l'.fresh = l.fresh + 1 ∧
      (∀ a, l'.content a = if a = l.fresh then some (value, valueSize) else l.content a) := by
  have hfresh := h.fresh_not_mem
  have hne : ∀ a ∈ l₁ ++ l₂, a ≠ l.fresh := fun a ha hf => hfresh (hf ▸ ha)
  have hnodup := h.nodup
  rw [List.nodup_append] at hnodup
  obtain ⟨hn₁, hn₂, hdisj⟩ := hnodup
  refine ⟨_, insert_run h value valueSize, ⟨?_, rfl, rfl, ?_, ?_, ?_, ?_, ?_⟩, rfl, rfl, ?_⟩
  · rw [List.nodup_middle, List.nodup_cons]
    exact ⟨hfresh, h.nodup⟩
  · simp [h.length, Nat.add_assoc]
  · refine links_splice h.next h.nodup (by simp [succ, linked]) ?_ ?_
    · intro b hb
      have hbl := List.mem_of_getLast? hb
      obtain ⟨nb, hnb⟩ := h.exists_heap (a := b) (by simp [hbl])
      simp [succ, linked, hne b (by simp [hbl]), Option.mem_def.mp hb, hnb]
    · intro a ha hlast
      exact linked_next (hne a ha) fun hal => hlast a hal.symm rfl
  · have hprev := h.prev
    have hnodup := List.nodup_reverse.mpr h.nodup
    rw [List.reverse_append] at hprev hnodup
    rw [List.reverse_append, List.reverse_cons, List.append_assoc, List.singleton_append]
    refine links_splice hprev hnodup (by simp [pred, linked]) ?_ ?_
    · intro b hb
      rw [List.getLast?_reverse, Option.mem_def] at hb
      have hbl := List.mem_of_head? hb
      obtain ⟨nb, hnb⟩ := h.exists_heap (a := b) (by simp [hbl])
      have hlast : ¬ some b = l₁.getLast? := fun hlast =>
        hdisj b (List.mem_of_getLast? hlast.symm) b hbl rfl
      simp [pred, linked, hne b (by simp [hbl]), hlast, hb, hnb]
    · intro a ha hhead
      rw [List.getLast?_reverse] at hhead
      exact linked_prev (hne a (by simpa [or_comm] using ha)) fun haq => hhead a haq.symm rfl
  · intro a
    by_cases ha : a = l.fresh
    · simp [linked, ha]
    · have hlive := h.live a
      rw [List.mem_append] at hlive
      simp only [isSome_linked ha, hlive, List.mem_append, List.mem_cons, ha, false_or]
  · intro a ha
    rw [List.mem_append, List.mem_cons] at ha
    rcases ha with ha | rfl | ha
    · exact Nat.lt_succ_of_lt (h.bound a (by simp [ha]))
    · exact Nat.lt_succ_self _
    · exact Nat.lt_succ_of_lt (h.bound a (by simp [ha]))
  · intro a
    by_cases ha : a = l.fresh
    · simp [content, linked, ha]
    · rw [if_neg ha]
      exact linked_content ha

/-- A position outside of the list. -/
theorem insert_of_not_le (value : α) (valueSize : ℕ) {pos : ℤ} (alloc : Bool)
    (hpos : ¬ (0 ≤ pos ∧ pos ≤ l.length)) :
    l.insert value valueSize pos alloc = .ok (false, l) := by
  rw [insert, if_neg hpos]
  rfl

/-- **Appending**: the new node comes last. -/
theorem append_spec (h : Repr l ids) (value : α) (valueSize : ℕ) :
    ∃ l', l.append value valueSize true = .ok (true, l') ∧ Repr l' (ids ++ [l.fresh]) ∧
      l'.current = (if ids = [] then some l.fresh else l.current) ∧ l'.fresh = l.fresh + 1 ∧
      (∀ a, l'.content a = if a = l.fresh then some (value, valueSize) else l.content a) := by
  have hnil : ids ++ [] = ids := List.append_nil ids
  have hids : Repr l (ids ++ []) := hnil.symm ▸ h
  have hspec := insert_spec hids value valueSize
  rw [hnil, ← h.length] at hspec
  exact hspec

end Insert

section Delete

variable {l₁ l₂ : List Addr} {x : Addr}

/-- The heap after a node has been unlinked and freed. -/
def unlinked (l : CList α) (l₁ : List Addr) (x : Addr) (l₂ : List Addr) (a : Addr) :
    Option (ListNode α) :=
  if a = x then none
  else if some a = l₁.getLast? then (l.heap a).map fun n => { n with next := l₂.head? }
  else if some a = l₂.head? then (l.heap a).map fun n => { n with prev := l₁.getLast? }
  else l.heap a

theorem delete_run (h : Repr l (l₁ ++ x :: l₂)) :
    l.delete l₁.length = .ok (true, { l with
      first := (l₁ ++ l₂).head?
      last := (l₁ ++ l₂).getLast?
      current := if l₁ = [] then l₂.head? else l.current
      length := l.length - 1
      heap := l.unlinked l₁ x l₂ }) := by
  obtain ⟨n, hn, hnext, hprev⟩ := h.node
  have hnodup := h.nodup
  rw [List.nodup_append, List.nodup_cons] at hnodup
  obtain ⟨hn₁, ⟨hx₂, hn₂⟩, hdisj⟩ := hnodup
  have hx₁ : x ∉ l₁ := fun hx => hdisj x hx x (by simp) rfl
  have hfirst := h.first
  have hlast := h.last
  simp only [delete, if_pos h.inRange, Int.toNat_natCast, h.walk, bind, Except.bind, deref, hn]
  rcases List.eq_nil_or_concat l₁ with rfl | ⟨t₁, p, rfl⟩
  · have hprev' : n.prev = none := hprev
    cases l₂ with
    | nil =>
      have hnext' : n.next = none := hnext
      simp [hprev', hnext', hfirst, hn, pure, Except.pure]
      funext a
      simp [unlinked]
    | cons q t₂ =>
      obtain ⟨nq, hnq⟩ := h.exists_heap (a := q) (by simp)
      have hnext' : n.next = some q := hnext
      simp [hprev', hnext', hfirst, hlast, hn, modify, hnq, pure, Except.pure]
      funext a
      by_cases haq : a = q <;> simp [unlinked, haq, hnq]
  · obtain ⟨np, hnp⟩ := h.exists_heap (a := p) (by simp)
    have hprev' : n.prev = some p := by simpa using hprev
    have hpx : p ≠ x := fun hp => hx₁ (by simp [hp])
    cases l₂ with
    | nil =>
      have hnext' : n.next = none := hnext
      simp [hprev', hnext', hfirst, modify, hnp, pure, Except.pure]
      funext a
      by_cases hap : a = p <;> simp [unlinked, hap, hnp]
    | cons q t₂ =>
      obtain ⟨nq, hnq⟩ := h.exists_heap (a := q) (by simp)
      have hnext' : n.next = some q := hnext
      have hpq : p ≠ q := fun hp => hdisj p (by simp) q (by simp) hp
      simp [hprev', hnext', hfirst, hlast, modify, hnp, hnq, hpq.symm, pure, Except.pure]
      funext a
      by_cases hap : a = p
      · simp [unlinked, hap, hnp, hpq]
      · by_cases haq : a = q <;> simp [unlinked, hap, haq, hnq, hpq.symm]

theorem unlinked_next {a : Addr} (ha : a ≠ x) (hlast : ¬ some a = l₁.getLast?) :
    (l.unlinked l₁ x l₂ a).map ListNode.next = l.succ a := by
  rw [unlinked, if_neg ha, if_neg hlast]
  split <;> simp [succ, Function.comp_def]

theorem unlinked_prev {a : Addr} (ha : a ≠ x) (hhead : ¬ some a = l₂.head?) :
    (l.unlinked l₁ x l₂ a).map ListNode.prev = l.pred a := by
  rw [unlinked, if_neg ha, if_neg hhead]
  split <;> simp [pred, Function.comp_def]

theorem unlinked_content {a : Addr} (ha : a ≠ x) :
    (l.unlinked l₁ x l₂ a).map (fun n => (n.data, n.dataSize)) = l.content a := by
  rw [unlinked, if_neg ha]
  split
  · simp [content, Function.comp_def]
  · split <;> simp [content, Function.comp_def]

theorem isSome_unlinked {a : Addr} (ha : a ≠ x) :
    (l.unlinked l₁ x l₂ a).isSome = (l.heap a).isSome := by
  rw [unlinked, if_neg ha]
  split
  · simp
  · split <;> simp

/-- **Deleting**: the node goes, the others keep their order and their data.  The
cursor is moved to the new first node when the first one goes, and left alone when
another one does. -/
theorem delete_spec (h : Repr l (l₁ ++ x :: l₂)) :
    ∃ l', l.delete l₁.length = .ok (true, l') ∧ Repr l' (l₁ ++ l₂) ∧
      l'.current = (if l₁ = [] then l₂.head? else l.current) ∧ l'.fresh = l.fresh ∧
      (∀ a, l'.content a = if a = x then none else l.content a) := by
  have hnodup := h.nodup
  obtain ⟨n, hn, hnext, hprev⟩ := h.node
  rw [List.nodup_append, List.nodup_cons] at hnodup
  obtain ⟨hn₁, ⟨hx₂, hn₂⟩, hdisj⟩ := hnodup
  have hx₁ : x ∉ l₁ := fun hx => hdisj x hx x (by simp) rfl
  refine ⟨_, delete_run h, ⟨?_, rfl, rfl, ?_, ?_, ?_, ?_, ?_⟩, rfl, rfl, ?_⟩
  · exact h.nodup.sublist ((List.sublist_cons_self x l₂).append_left l₁)
  · rw [h.length]
    simp
  · refine links_bypass h.next h.nodup (fun b hb => ?_) fun a ha hlast => ?_
    · have hbl := List.mem_of_getLast? hb
      obtain ⟨nb, hnb⟩ := h.exists_heap (a := b) (by simp [hbl])
      have hbx : b ≠ x := fun hbx => hx₁ (hbx ▸ hbl)
      simp [succ, unlinked, hbx, Option.mem_def.mp hb, hnb, hn, hnext]
    · exact unlinked_next ha fun hal => hlast a hal.symm rfl
  · have hprev' := h.prev
    rw [List.reverse_append, List.reverse_cons, List.append_assoc, List.singleton_append] at hprev'
    have hnodup' := List.nodup_reverse.mpr h.nodup
    rw [List.reverse_append, List.reverse_cons, List.append_assoc, List.singleton_append] at hnodup'
    rw [List.reverse_append]
    refine links_bypass hprev' hnodup' (fun b hb => ?_) fun a ha hhead => ?_
    · rw [List.getLast?_reverse, Option.mem_def] at hb
      have hbl := List.mem_of_head? hb
      obtain ⟨nb, hnb⟩ := h.exists_heap (a := b) (by simp [hbl])
      have hbx : b ≠ x := fun hbx => hx₂ (hbx ▸ hbl)
      have hlast : ¬ some b = l₁.getLast? := fun hlast =>
        hdisj b (List.mem_of_getLast? hlast.symm) b (by simp [hbl]) rfl
      simp [pred, unlinked, hbx, hlast, hb, hnb, hn, hprev]
    · rw [List.getLast?_reverse] at hhead
      exact unlinked_prev ha fun haq => hhead a haq.symm rfl
  · intro a
    by_cases ha : a = x
    · simp [unlinked, ha, hx₁, hx₂]
    · have hlive := h.live a
      simp only [List.mem_append, List.mem_cons, ha, false_or] at hlive
      rw [List.mem_append, ← hlive, isSome_unlinked ha]
  · exact fun a ha => h.bound a (by simpa using (List.mem_append.mp ha).imp id Or.inr)
  · intro a
    by_cases ha : a = x
    · simp [content, unlinked, ha]
    · rw [if_neg ha]
      exact unlinked_content ha

/-- A position outside of the list. -/
theorem delete_of_not_lt {pos : ℤ} (hpos : ¬ (0 ≤ pos ∧ pos < l.length)) :
    l.delete pos = .ok (false, l) := by
  rw [delete, if_neg fun hcond => hpos hcond.2]
  rfl

end Delete

/-- **The cursor**: `List_next` returns the node under it and moves it on. -/
theorem next_spec {l₁ l₂ : List Addr} {x : Addr} (h : Repr l (l₁ ++ x :: l₂))
    (hcurrent : l.current = some x) :
    l.next = .ok (some x, { l with current := l₂.head? }) := by
  obtain ⟨n, hn, hnext, -⟩ := h.node
  simp only [next, hcurrent, deref, hn, bind, Except.bind, pure, Except.pure, hnext]

theorem prev_spec {l₁ l₂ : List Addr} {x : Addr} (h : Repr l (l₁ ++ x :: l₂))
    (hcurrent : l.current = some x) :
    l.prev = .ok (some x, { l with current := l₁.getLast? }) := by
  obtain ⟨n, hn, -, hprev⟩ := h.node
  simp only [prev, hcurrent, deref, hn, bind, Except.bind, pure, Except.pure, hprev]

theorem prev_none (hcurrent : l.current = none) : l.prev = .ok (none, l) := by
  simp only [prev, hcurrent]

theorem next_none (hcurrent : l.current = none) : l.next = .ok (none, l) := by
  simp only [next, hcurrent]

/-- A cursor that has been left behind by `List_delete` is followed into freed
memory. -/
theorem next_dangling (h : Repr l ids) {x : Addr} (hcurrent : l.current = some x)
    (hx : x ∉ ids) : l.next = .error .useAfterFree := by
  simp only [next, hcurrent, deref, h.heap_eq_none hx, bind, Except.bind]

/-- Rewinding an empty list leaves the cursor where it is. -/
theorem rewind_spec (h : Repr l ids) :
    l.rewind.2 = { l with current := if ids = [] then l.current else ids.head? } := by
  cases ids with
  | nil => simp [rewind, h.empty_eq]
  | cons a t => simp [rewind, h.empty_eq, h.first]

/-- The nodes whose data is found. -/
def matching (l : CList α) (needleSize : ℕ) (found : α → Bool) (a : Addr) : Bool :=
  match l.content a with
  | none => false
  | some (data, size) => size == needleSize && found data

theorem searchFrom_eq (needleSize : ℕ) (found : α → Bool) :
    ∀ {ids : List Addr}, (∀ a ∈ ids, (l.heap a).isSome) → Links l.succ ids none → ∀ pos : ℤ,
      l.searchFrom needleSize found ids.length ids.head? pos =
        .ok (match ids.findIdx? (l.matching needleSize found) with
          | none => -1
          | some i => pos + i) := by
  intro ids
  induction ids with
  | nil => intros; rfl
  | cons a t ih =>
    intro hlive hlinks pos
    rw [List.forall_mem_cons] at hlive
    obtain ⟨n, hn⟩ := Option.isSome_iff_exists.mp hlive.1
    have hnext : n.next = t.head? := by simpa [succ, hn] using hlinks.1
    have hmatch : l.matching needleSize found a = (n.dataSize == needleSize && found n.data) := by
      simp only [matching, content, hn, Option.map_some]
    rw [List.length_cons, searchFrom, List.head?_cons, List.findIdx?_cons, hmatch]
    simp only [deref, hn, bind, Except.bind, hnext]
    by_cases hfound : n.dataSize = needleSize ∧ found n.data = true
    · simp [hfound, pure, Except.pure]
    · rw [if_neg hfound]
      have hb : (n.dataSize == needleSize && found n.data) = false := by
        simpa using hfound
      rw [hb, ih hlive.2 hlinks.2]
      simp only [Bool.false_eq_true, if_false]
      cases t.findIdx? (l.matching needleSize found) with
      | none => rfl
      | some i =>
        simp only [Option.map_some, Except.ok.injEq]
        push_cast
        omega

/-- The result of `List_search` for an index. -/
def foundAt : Option ℕ → ℤ
  | none => -1
  | some i => i

/-- **Searching** finds the first node whose data matches. -/
theorem search_spec (h : Repr l ids) (needleSize : ℕ) (found : α → Bool) :
    l.search needleSize found =
      .ok (foundAt (ids.findIdx? (l.matching needleSize found))) := by
  have hlive : ∀ a ∈ ids, (l.heap a).isSome := fun a ha => (h.live a).mpr ha
  cases ids with
  | nil => simp [search, h.empty_eq, foundAt]
  | cons a t =>
    rw [search, h.empty_eq, if_pos (by simp), h.length, h.first,
      searchFrom_eq needleSize found hlive h.next]
    cases (a :: t).findIdx? (l.matching needleSize found) with
    | none => rfl
    | some i => simp [foundAt]

theorem item_spec (h : Repr l ids) {i : ℕ} (hi : i < ids.length) : l.item i = .ok ids[i]? := by
  have hne : ids ≠ [] := fun hnil => by simp [hnil] at hi
  have hcond : l.empty = false ∧ (0 : ℤ) ≤ i ∧ (i : ℤ) < l.length := by
    rw [h.empty_eq, h.length]
    refine ⟨by simpa using hne, by omega, by omega⟩
  rw [item, if_pos hcond, Int.toNat_natCast, h.first, follow_eq h.next (Nat.le_of_lt hi)]

theorem getFirst_spec (h : Repr l ids) : l.getFirst = ids.head? := by
  cases ids with
  | nil => simp [getFirst, h.empty_eq]
  | cons a t => simp [getFirst, h.empty_eq, h.first]

theorem getLast_spec (h : Repr l ids) : l.getLast = ids.getLast? := by
  cases ids with
  | nil => simp [getLast, h.empty_eq]
  | cons a t => simp [getLast, h.empty_eq, h.last]

/-- Writing to the data of a node. -/
theorem modifyData_spec (h : Repr l ids) {x : Addr} (hx : x ∈ ids) (f : α → α) :
    ∃ l', l.modifyData x f = .ok l' ∧ Repr l' ids ∧ l'.current = l.current ∧
      l'.fresh = l.fresh ∧ 
      (∀ a, l'.content a =
        if a = x then (l.content a).map (Prod.map f id) else l.content a) := by
  obtain ⟨n, hn⟩ := h.exists_heap hx
  have hsame := sameShape_modify (f := fun m => { m with data := f m.data }) hn rfl rfl
  refine ⟨_, modify_eq hn _, h.of_sameShape hsame, rfl, rfl, ?_⟩
  intro a
  by_cases ha : a = x <;> simp [content, ha, hn]

/-- **Updating**: the node at the position has the new data, and nothing else changes. -/
theorem update_spec {l₁ l₂ : List Addr} {x : Addr} (h : Repr l (l₁ ++ x :: l₂)) (value : α)
    (valueSize : ℕ) (null : α) :
    ∃ l', l.update value valueSize l₁.length true null = .ok (true, l') ∧ SameShape l l' ∧
      (∀ a, l'.content a = if a = x then some (value, valueSize) else l.content a) := by
  obtain ⟨n, hn, -, -⟩ := h.node
  have hsame := sameShape_modify (f := fun m => { m with data := value, dataSize := valueSize }) hn
    rfl rfl
  refine ⟨_, ?_, hsame, ?_⟩
  · rw [update, if_pos h.inRange, Int.toNat_natCast, h.walk]
    simp only [bind, Except.bind, if_true, modify_eq hn]
    rfl
  · intro a
    by_cases ha : a = x <;> simp [content, ha]

/-- A position outside of the list. -/
theorem update_of_not_lt (value : α) (valueSize : ℕ) {pos : ℤ} (alloc : Bool) (null : α)
    (hpos : ¬ (0 ≤ pos ∧ pos < l.length)) :
    l.update value valueSize pos alloc null = .ok (false, l) := by
  rw [update, if_neg fun hcond => hpos hcond.2]
  rfl

end CList

end C2Hat
