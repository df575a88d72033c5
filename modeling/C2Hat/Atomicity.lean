import C2Hat.Allocations
import C2Hat.Queue
import C2Hat.Hash

/-!
# Containers without memory

What `List_insert`, `List_update`, `Queue_enqueue`, `Queue_dequeue` and `Hash_set` leave
behind when an allocation fails.  Only `Hash_set` looks at the node it asked for before
it changes anything.  The list and the queue link in the `NULL` they got, or run into it;
`List_update` has freed the old data and `Queue_dequeue` has detached the first node by
the time they ask for memory.

A container is looked at as it is: nothing is assumed of its fields but that its chains
come to an end, so the states that earlier failures leave behind are among those the
results are about.  The data pointer of a list node may be `NULL`, which is `none`.

## Main definitions

* `Container`, `Container.Content` — a container, and what is in it.
* `ContainerCall` — a call, with the container it is made on.
* `ContainerCall.Fails` — an allocation of the call fails.
* `ContainerCall.Atomic` — the call reports failure and leaves everything as it was.

## Main results

* `atomic_iff_isHashSet` — **a call whose allocation fails is atomic exactly when it is a
  call of `Hash_set`.**
-/

namespace C2Hat

open Clib

/-- `List_update(this, value, valueSize, pos)` with the data pointers in view: the old
data is cleared and freed, so there has to be some. -/
def CList.updateData {β : Type} (l : CList (Option β)) (value : β) (valueSize : ℕ) (pos : ℤ)
    (alloc : Bool) : Except Fault (Bool × CList (Option β)) :=
  if l.empty = false ∧ 0 ≤ pos ∧ pos < l.length then do
    let n ← follow l.succ pos.toNat l.first
    let node ← l.deref n
    if node.data.isNone = true then .error .nullDeref
    else l.update (some value) valueSize pos alloc none
  else return (false, l)

/-- A container of one of the three kinds. -/
inductive Container (β : Type)
  | list (l : CList (Option β))
  | queue (q : Queue β)
  | hash (h : Hash β)

/-- What is in a container: a sequence of data with their sizes, or a set of tuples. -/
inductive Contents (β : Type)
  | items (xs : List (Option β × ℕ))
  | tuples (s : Set (Tuple β))

namespace Container

variable {β : Type}

/-- The number of elements a container counts. -/
def length : Container β → ℕ
  | list l => l.length
  | queue q => q.length
  | hash h => h.length

/-- What is in a container is what the chains from its ends hold. -/
def Content : Container β → Contents β → Prop
  | list l, .items xs => ∃ ids, l.first = ids.head? ∧ Links l.succ ids none ∧
      ids.map l.content = xs.map some
  | queue q, .items xs => ∃ ids, q.first = ids.head? ∧ Links q.succ ids none ∧
      (ids.map fun a => (q.data a).map fun d => (some d.1, d.2)) = xs.map some
  | hash h, .tuples s => ∃ chain : ℤ → List Addr,
      (∀ i, 0 ≤ i → i < hashSize → h.hash i = (chain i).head? ∧ Links h.succ (chain i) none) ∧
      ∀ t, t ∈ s ↔ ∃ i, 0 ≤ i ∧ i < hashSize ∧ ∃ a ∈ chain i, h.tupleAt a = some t
  | _, _ => False

end Container

/-- A call, with the container it is made on. -/
inductive ContainerCall (β : Type)
  | listInsert (l : CList (Option β)) (value : β) (valueSize : ℕ) (pos : ℤ)
  | listUpdate (l : CList (Option β)) (value : β) (valueSize : ℕ) (pos : ℤ)
  | queueEnqueue (q : Queue β) (data : β) (length : ℕ)
  | queueDequeue (q : Queue β)
  | hashSet (h : Hash β) (key : CStr) (value : β) (length : ℕ)

namespace ContainerCall

variable {β : Type}

/-- The container before the call. -/
def before : ContainerCall β → Container β
  | listInsert l _ _ _ => .list l
  | listUpdate l _ _ _ => .list l
  | queueEnqueue q _ _ => .queue q
  | queueDequeue q => .queue q
  | hashSet h _ _ _ => .hash h

/-- The allocations a call makes: the node and its data, the new data alone, the copy and
its content, the node with its key and its value. -/
def allocations : ContainerCall β → ℕ
  | listInsert .. => 2
  | listUpdate .. => 1
  | queueEnqueue .. => 2
  | queueDequeue .. => 2
  | hashSet .. => 3

/-- All allocations of the call succeed; `allocs i` is whether the one with number `i`
does. -/
def served (call : ContainerCall β) (allocs : ℕ → Bool) : Bool :=
  (List.range call.allocations).all allocs

/-- The call gets to its allocations: its arguments are in range, and the pointers it
follows before lead somewhere. -/
def Allocates : ContainerCall β → Prop
  | listInsert l _ _ pos => 0 ≤ pos ∧ pos ≤ l.length
  | listUpdate l _ _ pos => (l.empty = false ∧ 0 ≤ pos ∧ pos < l.length) ∧
      ∃ n node, follow l.succ pos.toNat l.first = .ok n ∧ l.deref n = .ok node ∧
        node.data.isNone = false
  | queueEnqueue _ _ _ => True
  | queueDequeue q => q.empty = false ∧ ∃ node, q.deref q.first = .ok node
  | hashSet h key _ _ => ∃ r, h.find key (indexFor key hashSize) = .ok r

/-- An allocation of the call fails. -/
def Fails (call : ContainerCall β) (allocs : ℕ → Bool) : Prop :=
  call.Allocates ∧ call.served allocs = false

/-- Make the call: whether it reports success, which is a pointer other than `NULL` for
`Queue_dequeue`, and the container afterwards. -/
def run (allocs : ℕ → Bool) (call : ContainerCall β) : Except Stuck (Bool × Container β) :=
  let alloc := call.served allocs
  match call with
  | listInsert l value valueSize pos =>
    ((l.insert (some value) valueSize pos alloc).mapError .fault).map fun r => (r.1, .list r.2)
  | listUpdate l value valueSize pos =>
    ((l.updateData value valueSize pos alloc).mapError .fault).map fun r => (r.1, .list r.2)
  | queueEnqueue q data length =>
    ((q.enqueue data length alloc).mapError .fault).map fun r => (r.1, .queue r.2)
  | queueDequeue q =>
    ((q.dequeue alloc).mapError .fault).map fun r => (r.1.isSome, .queue r.2)
  | hashSet h key value length =>
    (h.set key value length alloc).map fun r => (r.1, .hash r.2)

/-- The call reports failure, and the container has the content and the length it had. -/
def Atomic (call : ContainerCall β) (allocs : ℕ → Bool) : Prop :=
  ∃ c, call.run allocs = .ok (false, c) ∧ c.length = call.before.length ∧
    ∀ x, c.Content x ↔ call.before.Content x

/-- It is a call of `Hash_set`. -/
def isHashSet : ContainerCall β → Bool
  | hashSet .. => true
  | _ => false

end ContainerCall

/-! ### What a failing call leaves behind -/

section Failing

variable {β : Type}

/-- `List_insert` stores the missing item in a list without nodes, and runs into it in any
other one. -/
theorem CList.insert_failing_ne_false {l l' : CList β} {pos : ℤ}
    (hpos : 0 ≤ pos ∧ pos ≤ l.length) (value : β) (valueSize : ℕ) :
    l.insert value valueSize pos false ≠ .ok (false, l') := by
  intro hrun
  by_cases hfirst : l.first = none
  · rw [CList.insert, if_pos hpos] at hrun
    change (if l.first = none then _ else _) = _ at hrun
    rw [if_pos hfirst] at hrun
    cases hrun
  · exact insert_failing_ne_ok hfirst value valueSize hpos _ hrun

/-- `List_update` reports failure and leaves `NULL` in the node. -/
theorem CList.updateData_failing {l : CList (Option β)} {pos : ℤ} {n : Option Addr}
    {node : ListNode (Option β)} (hpos : l.empty = false ∧ 0 ≤ pos ∧ pos < l.length)
    (hwalk : follow l.succ pos.toNat l.first = .ok n) (hnode : l.deref n = .ok node)
    (hdata : node.data.isNone = false) (value : β) (valueSize : ℕ) :
    ∃ l', l.modify n (fun m => { m with data := none }) = .ok l' ∧
      l.updateData value valueSize pos false = .ok (false, l') := by
  obtain ⟨l', hmodify⟩ : ∃ l', l.modify n (fun m => { m with data := none }) = .ok l' := by
    cases n with
    | none => cases hnode
    | some a =>
      cases ha : l.heap a with
      | none => simp [deref, ha] at hnode
      | some m => exact ⟨_, modify_eq ha _⟩
  refine ⟨l', hmodify, ?_⟩
  rw [updateData, if_pos hpos]
  refine bind_eq_ok.mpr ⟨n, hwalk, bind_eq_ok.mpr ⟨node, hnode, ?_⟩⟩
  rw [hdata, if_neg (by simp), update, if_pos hpos]
  refine bind_eq_ok.mpr ⟨n, hwalk, ?_⟩
  exact bind_eq_ok.mpr ⟨l', hmodify, rfl⟩

/-- `Queue_enqueue` never reports failure. -/
theorem Queue.enqueue_ne_false {q q' : Queue β} {alloc : Bool} (data : β) (length : ℕ) :
    q.enqueue data length alloc ≠ .ok (false, q') := by
  intro hrun
  unfold Queue.enqueue at hrun
  cases hnew : q.newNode data length alloc with
  | mk item q₁ =>
  rw [hnew] at hrun
  change (if q₁.empty = true then _ else _) = _ at hrun
  split at hrun
  · cases hrun
  · obtain ⟨q₂, -, hrun⟩ := bind_eq_ok.mp hrun
    cases hrun

/-- `Queue_dequeue` reports failure behind the node it has detached. -/
theorem Queue.dequeue_failing {q : Queue β} {node : QueueNode β} (hempty : q.empty = false)
    (hnode : q.deref q.first = .ok node) :
    q.dequeue false = .ok (none, { q with first := node.next }) := by
  rw [dequeue, if_pos hempty]
  exact bind_eq_ok.mpr ⟨node, hnode, rfl⟩

end Failing

/-! ### Contents before and after -/

namespace Container

variable {β : Type}

/-- A list that shows what it showed before has the data in its nodes that it had. -/
theorem content_eq_of_same {l l' : CList (Option β)} {ids : List Addr} {xs : List (Option β × ℕ)}
    (hfirst : l'.first = l.first) (hsucc : ∀ a, l'.succ a = l.succ a)
    (hids : l.first = ids.head? ∧ Links l.succ ids none ∧ ids.map l.content = xs.map some)
    (hsame : (Container.list l').Content (.items xs)) : ∀ a ∈ ids, l'.content a = l.content a := by
  obtain ⟨ids', hhead, hlinks, hcontent⟩ := hsame
  have heq : ids' = ids := by
    refine links_unique (links_congr (fun a _ => (hsucc a).symm) hlinks) hids.2.1 ?_
    rw [← hhead, hfirst, hids.1]
  subst heq
  exact List.map_inj_left.mp (hcontent.trans hids.2.2.symm)

/-- A queue whose first node has been detached shows one element less. -/
theorem not_content_detached {q : Queue β} {node : QueueNode β} {xs : List (Option β × ℕ)}
    (hnode : q.deref q.first = .ok node) (hbefore : (Container.queue q).Content (.items xs)) :
    ¬ (Container.queue { q with first := node.next }).Content (.items xs) := by
  rintro ⟨ids', hhead', hlinks', hcontent'⟩
  obtain ⟨ids, hhead, hlinks, hcontent⟩ := hbefore
  have hlength : ids.length = ids'.length := by
    simpa using congrArg List.length (hcontent.trans hcontent'.symm)
  cases ids with
  | nil =>
    rw [hhead] at hnode
    cases hnode
  | cons a t =>
    have hnext : node.next = t.head? := by
      rw [hhead, List.head?_cons, Queue.deref] at hnode
      cases ha : q.heap a with
      | none => simp [ha] at hnode
      | some m =>
        simp only [ha, Except.ok.injEq] at hnode
        simpa [Queue.succ, ha, hnode] using hlinks.1
    have heq : t = ids' := links_unique hlinks.2 hlinks' (hnext.symm.trans hhead')
    rw [← heq] at hlength
    simp at hlength

end Container

/-! ### Main results -/

namespace ContainerCall

variable {β : Type} {allocs : ℕ → Bool}

/-- A call of `Hash_set` that fails. -/
theorem hashSet_atomic {h : Hash β} {key : CStr} {value : β} {length : ℕ}
    (hfail : (hashSet h key value length).Fails allocs) :
    (hashSet h key value length).Atomic allocs := by
  obtain ⟨⟨⟨prev, node⟩, hfind⟩, hserved⟩ := hfail
  refine ⟨.hash h, ?_, rfl, fun _ => Iff.rfl⟩
  simp only [run, hserved, Hash.set_no_memory hfind]
  rfl

theorem listInsert_not_atomic {l : CList (Option β)} {value : β} {valueSize : ℕ} {pos : ℤ}
    (hfail : (listInsert l value valueSize pos).Fails allocs) :
    ¬ (listInsert l value valueSize pos).Atomic allocs := by
  rintro ⟨c, hrun, -⟩
  simp only [run, hfail.2] at hrun
  obtain ⟨⟨r, l'⟩, hinsert, hr⟩ := map_eq_ok.mp hrun
  cases hr
  exact CList.insert_failing_ne_false hfail.1 _ _ (mapError_eq_ok.mp hinsert)

theorem queueEnqueue_not_atomic (q : Queue β) (data : β) (length : ℕ) :
    ¬ (queueEnqueue q data length).Atomic allocs := by
  rintro ⟨c, hrun, -⟩
  obtain ⟨⟨r, q'⟩, henqueue, hr⟩ := map_eq_ok.mp hrun
  cases hr
  exact Queue.enqueue_ne_false _ _ (mapError_eq_ok.mp henqueue)

/-- The element that could not be copied is no longer in the queue. -/
theorem queueDequeue_not_atomic {q : Queue β} {x : Contents β}
    (hfail : (queueDequeue q).Fails allocs) (hx : (Container.queue q).Content x) :
    ¬ (queueDequeue q).Atomic allocs := by
  obtain ⟨⟨hempty, node, hnode⟩, hserved⟩ := hfail
  rintro ⟨c, hrun, -, hsame⟩
  simp only [run, hserved, Queue.dequeue_failing hempty hnode] at hrun
  cases hrun
  cases x with
  | items xs => exact Container.not_content_detached hnode hx ((hsame _).mpr hx)
  | tuples s => exact hx

/-- The data of the node is gone. -/
theorem listUpdate_not_atomic {l : CList (Option β)} {value : β} {valueSize : ℕ} {pos : ℤ}
    {x : Contents β} (hfail : (listUpdate l value valueSize pos).Fails allocs)
    (hx : (Container.list l).Content x) : ¬ (listUpdate l value valueSize pos).Atomic allocs := by
  obtain ⟨⟨hpos, n, node, hwalk, hnode, hdata⟩, hserved⟩ := hfail
  rintro ⟨c, hrun, -, hsame⟩
  obtain ⟨l', hmodify, hupdate⟩ :=
    CList.updateData_failing hpos hwalk hnode hdata value valueSize
  simp only [run, hserved, hupdate] at hrun
  cases hrun
  cases x with
  | tuples s => exact hx
  | items xs =>
    obtain ⟨ids, hids⟩ := hx
    have hshape : CList.SameShape l l' := by
      refine CList.sameShape_of_modify ?_ ?_ hmodify
      · exact fun _ => rfl
      · exact fun _ => rfl
    have hkept := Container.content_eq_of_same hshape.first hshape.succ hids
      ((hsame _).mpr ⟨ids, hids⟩)
    -- the node is one of the chain
    cases n with
    | none => cases hnode
    | some a =>
      have ha : a ∈ ids := by
        rw [hids.1] at hwalk
        rcases Nat.lt_or_ge ids.length pos.toNat with hlt | hle
        · rw [follow_beyond hids.2.1 hlt] at hwalk
          cases hwalk
        · rw [follow_eq hids.2.1 hle, Except.ok.injEq] at hwalk
          exact List.mem_of_getElem? hwalk
      cases hheap : l.heap a with
      | none => simp [CList.deref, hheap] at hnode
      | some m =>
        obtain rfl : m = node := by simpa [CList.deref, hheap] using hnode
        rw [CList.modify_eq hheap] at hmodify
        cases hmodify
        have hcontent := hkept a ha
        simp only [CList.content, Function.update_self, Option.map_some, hheap, Option.some.injEq,
          Prod.mk.injEq] at hcontent
        rw [← hcontent.1] at hdata
        cases hdata

end ContainerCall

open ContainerCall

/-- **Only `Hash_set` is atomic**: whatever the container, and whichever of its
allocations fail. -/
theorem atomic_iff_isHashSet {β : Type} (call : ContainerCall β) (allocs : ℕ → Bool)
    (hcontent : ∃ x, call.before.Content x) (hfail : call.Fails allocs) :
    call.Atomic allocs ↔ call.isHashSet = true := by
  obtain ⟨x, hx⟩ := hcontent
  cases call with
  | listInsert l value valueSize pos => simp [listInsert_not_atomic hfail, isHashSet]
  | listUpdate l value valueSize pos => simp [listUpdate_not_atomic hfail hx, isHashSet]
  | queueEnqueue q data length => simp [queueEnqueue_not_atomic, isHashSet]
  | queueDequeue q => simp [queueDequeue_not_atomic hfail hx, isHashSet]
  | hashSet h key value length => simp [hashSet_atomic hfail, isHashSet]

/-- `Queue_enqueue` counts a node that could not be allocated. -/
theorem not_atomic_enqueue : ¬ ∀ (call : ContainerCall UInt8) (allocs : ℕ → Bool),
    (∃ x, call.before.Content x) → call.Fails allocs → call.Atomic allocs := by
  intro h
  have hx : (Container.queue (Queue.new : Queue UInt8)).Content (.items []) :=
    ⟨[], rfl, trivial, rfl⟩
  exact queueEnqueue_not_atomic Queue.new 7 1
    (h (.queueEnqueue .new 7 1) (fun _ => false) ⟨_, hx⟩ ⟨trivial, rfl⟩)

theorem atomic_iff_isHashSet_new :
    ((ContainerCall.hashSet (Hash.new : Hash UInt8) (str "key") 7 1).Atomic fun i => i != 2) ↔
      (ContainerCall.hashSet (Hash.new : Hash UInt8) (str "key") 7 1).isHashSet = true := by
  refine atomic_iff_isHashSet _ _ ⟨.tuples ∅, fun _ => [], ?_, ?_⟩ ⟨⟨(none, none), ?_⟩, rfl⟩
  · exact fun i _ _ => ⟨rfl, trivial⟩
  · exact fun t => ⟨False.elim, fun ⟨_, _, _, _, ha, _⟩ => nomatch ha⟩
  · rw [Hash.find, Hash.slot_eq Hash.repr_new]
    rfl

end C2Hat
