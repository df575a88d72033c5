import Mathlib.Data.List.Perm.Basic
import C2Hat.Lib.Links
import C2Hat.Lib.Printf

/-!
# The hash table

`src/lib/hash/hash.c`.  A `Hash` is the table of chains together with the heap its
nodes live in.  The key and the value of a node are allocated and freed with it.  A
walk over a chain goes on for at most as many rounds as there have been allocations;
one that would go on longer never ends.

A chain of the table holds the keys of one index, each of them once.  An operation
changes one chain, and there it exchanges the node with the key for another one: it
puts a node at the end when there is none with the key, and takes one out to delete it.

## Main definitions

* `Tuple`, `HashNode`, `Hash` and the operations `indexFor`, `set`, `get`, `getValue`,
  `delete`, `first`, `last`.
* `Hash.Repr h chain` — the nodes of the table are those of `chain`.
* `Hash.Exchanged` — what an operation does to a chain.

## Main results

* `indexFor_range` — an index is in the table, whatever the key.
* `Repr.set_found_run`, `Repr.set_missing_run`, `Repr.delete_found_run` — what the
  operations compute.
* `Exchanged.repr`, `Exchanged.holds_iff` — the table after an exchange.
-/

namespace C2Hat

open Clib

/-- `HASH_SIZE`. -/
def hashSize : ℕ := 128

/-- A key and its value, of `length` bytes. -/
structure Tuple (α : Type) where
  key : CStr
  value : α
  length : ℕ
  deriving DecidableEq

/-- A node of a chain. -/
structure HashNode (α : Type) where
  /-- The next node. -/
  next : Option Addr
  /-- The item. -/
  data : Tuple α

/-- A hash and its heap. -/
structure Hash (α : Type) where
  /-- The table, of which the indices from `0` to `hashSize - 1` exist. -/
  hash : ℤ → Option Addr
  /-- The number of items. -/
  length : ℕ
  /-- The nodes that are allocated. -/
  heap : Addr → Option (HashNode α)
  /-- The address of the next allocation. -/
  fresh : Addr

/-- `Hash_indexFor(key, size)`.  The characters are signed, their sum is an `int`, and
it is converted to the type of `size` for the division.  The sum is undefined when it
leaves the range of an `int`, which takes a key of some megabytes; here it wraps. -/
def indexFor (key : CStr) (size : ℕ) : ℤ :=
  let index : BitVec 32 := key.bytes.foldl (fun index c => index + c.toBitVec.signExtend 32) 0
  ((index.signExtend 64 % BitVec.ofNat 64 size).setWidth 32).toInt

namespace Hash

variable {α : Type}

/-- `Hash_new()`. -/
def new : Hash α := ⟨fun _ => none, 0, fun _ => none, 0⟩

/-- `Hash_empty(this)`. -/
def empty (h : Hash α) : Bool := h.length == 0

/-- `this->hash[i]`. -/
def slot (h : Hash α) (i : ℤ) : Except Stuck (Option Addr) :=
  if 0 ≤ i ∧ i < hashSize then .ok (h.hash i) else .error (.fault .outOfBounds)

/-- `this->hash[i] = p`. -/
def setSlot (h : Hash α) (i : ℤ) (p : Option Addr) : Except Stuck (Hash α) :=
  if 0 ≤ i ∧ i < hashSize then .ok { h with hash := Function.update h.hash i p }
  else .error (.fault .outOfBounds)

/-- Follow a pointer to a node. -/
def deref (h : Hash α) : Option Addr → Except Stuck (HashNode α)
  | none => .error (.fault .nullDeref)
  | some a =>
    match h.heap a with
    | none => .error (.fault .useAfterFree)
    | some n => .ok n

/-- `p->next = q`. -/
def setNext (h : Hash α) (p q : Option Addr) : Except Stuck (Hash α) :=
  match p with
  | none => .error (.fault .nullDeref)
  | some a =>
    match h.heap a with
    | none => .error (.fault .useAfterFree)
    | some n => .ok { h with heap := Function.update h.heap a (some { n with next := q }) }

/-- The link stored at an address. -/
def succ (h : Hash α) (a : Addr) : Option (Option Addr) := (h.heap a).map HashNode.next

/-- The item stored at an address. -/
def tupleAt (h : Hash α) (a : Addr) : Option (Tuple α) := (h.heap a).map HashNode.data

/-- `HashNode_new(key, value, length)`; `alloc` is whether its allocations succeed. -/
def newNode (h : Hash α) (key : CStr) (value : α) (length : ℕ) (alloc : Bool) :
    Option Addr × Hash α :=
  if alloc then
    (some h.fresh, { h with
      heap := Function.update h.heap h.fresh (some ⟨none, key, value, length⟩)
      fresh := h.fresh + 1 })
  else (none, h)

/-- `HashNode_free(&p)`, which goes through the node to its key and value. -/
def freeNode (h : Hash α) (p : Option Addr) : Except Stuck (Hash α) :=
  match p with
  | none => .error (.fault .nullDeref)
  | some a =>
    match h.heap a with
    | none => .error (.fault .useAfterFree)
    | some _ => .ok { h with heap := Function.update h.heap a none }

/-- The loop over a chain that looks for a key: the node with the key, and the one in
front of it. -/
def find (h : Hash α) (key : CStr) (hashIndex : ℤ) :
    Except Stuck (Option Addr × Option Addr) := do
  let node ← h.slot hashIndex
  findFrom h.succ (fun a => (h.tupleAt a).any fun t => t.key == key) (h.fresh + 1) none node

/-- Make the chain go on with `item` behind `prev`, from the table if that is `NULL`. -/
def relink (h : Hash α) (hashIndex : ℤ) (prev item : Option Addr) : Except Stuck (Hash α) :=
  if prev = none then h.setSlot hashIndex item else h.setNext prev item

/-- `Hash_set(this, key, value, length)`. -/
def set (h : Hash α) (key : CStr) (value : α) (length : ℕ) (alloc : Bool) :
    Except Stuck (Bool × Hash α) := do
  let hashIndex := indexFor key hashSize
  let (prev, node) ← h.find key hashIndex
  let (item, h) := h.newNode key value length alloc
  if item = none then return (false, h)
  let h ← h.relink hashIndex prev item
  if node ≠ none then
    -- the new node takes the place of the one with the key
    let old ← h.deref node
    let h ← h.setNext item old.next
    let h ← h.setNext node none
    let h ← h.freeNode node
    return (true, h)
  return (true, { h with length := h.length + 1 })

/-- `Hash_delete(this, key)`. -/
def delete (h : Hash α) (key : CStr) : Except Stuck (Bool × Hash α) :=
  if h.length > 0 then do
    let hashIndex := indexFor key hashSize
    let (prev, node) ← h.find key hashIndex
    if node = none then return (false, h)
    let old ← h.deref node
    let h ← h.relink hashIndex prev old.next
    let h ← (if prev = none then .ok h else h.setNext node none)
    let h ← h.freeNode node
    return (true, { h with length := h.length - 1 })
  else return (false, h)

/-- The item with a key, as `Hash_get` and `Hash_getValue` look for it. -/
def lookup (h : Hash α) (key : CStr) : Except Stuck (Option (Tuple α)) :=
  if h.length > 0 then do
    let (_, node) ← h.find key (indexFor key hashSize)
    if node = none then return none
    let n ← h.deref node
    return some n.data
  else return none

/-- `Hash_get(this, key)`. -/
def get (h : Hash α) (key : CStr) : Except Stuck (Option (Tuple α)) := h.lookup key

/-- `Hash_getValue(this, key)`. -/
def getValue (h : Hash α) (key : CStr) : Except Stuck (Option α) := do
  let data ← h.lookup key
  return data.map Tuple.value

/-- `Hash_first(this)`. -/
def first (h : Hash α) : Except Stuck (Option (Tuple α)) :=
  if h.length > 0 then
    match (List.range hashSize).findSome? fun i : ℕ => h.hash i with
    | none => .ok none
    | some a => do
      let n ← h.deref (some a)
      return some n.data
  else return none

/-- `Hash_last(this)`. -/
def last (h : Hash α) : Except Stuck (Option (Tuple α)) :=
  if h.length > 0 then
    match (List.range hashSize).reverse.findSome? fun i : ℕ => h.hash i with
    | none => .ok none
    | some a => do
      let a ← lastFrom h.succ (h.fresh + 1) a
      let n ← h.deref (some a)
      return some n.data
  else return none

/-! ### Represented tables -/

/-- The nodes of the table are those of `chain`, each chain linked from the table and
holding the keys of its index, each of them once. -/
structure Repr (h : Hash α) (chain : ℤ → List Addr) : Prop where
  /-- The table. -/
  table : ∀ i, h.hash i = (chain i).head?
  /-- The links of a chain. -/
  links : ∀ i, Links h.succ (chain i) none
  /-- No address occurs twice. -/
  nodup : ∀ i, (chain i).Nodup
  /-- A key is in its own chain. -/
  own : ∀ i, ∀ a ∈ chain i, ∃ t, h.tupleAt a = some t ∧ indexFor t.key hashSize = i
  /-- No key occurs twice. -/
  unique : ∀ i, ∀ a ∈ chain i, ∀ b ∈ chain i, ∀ s t, h.tupleAt a = some s →
    h.tupleAt b = some t → s.key = t.key → a = b
  /-- Addresses are handed out in order. -/
  bound : ∀ i, ∀ a ∈ chain i, a < h.fresh

/-- An item is in the table. -/
def Holds (h : Hash α) (chain : ℤ → List Addr) (t : Tuple α) : Prop :=
  ∃ a ∈ chain (indexFor t.key hashSize), h.tupleAt a = some t

theorem repr_new : Repr (new : Hash α) fun _ => [] where
  table _ := rfl
  links _ := trivial
  nodup _ := List.nodup_nil
  own := by simp
  unique := by simp
  bound := by simp

/-- The remainder is small enough to be an `int` again. -/
theorem toInt_remainder (x : BitVec 64) :
    ((x % BitVec.ofNat 64 hashSize).setWidth 32).toInt = (x.toNat % 128 : ℕ) := by
  have hlt : x.toNat % 128 < 128 := Nat.mod_lt _ (by decide)
  have hmod : (x % BitVec.ofNat 64 hashSize).toNat = x.toNat % 128 := by
    rw [BitVec.toNat_umod]
    rfl
  have hwidth : ((x % BitVec.ofNat 64 hashSize).setWidth 32).toNat = x.toNat % 128 := by
    rw [BitVec.toNat_setWidth, hmod]
    omega
  rw [BitVec.toInt_eq_toNat_of_lt (by omega), hwidth]

/-- **Every index is in the table.** -/
theorem indexFor_range (key : CStr) :
    0 ≤ indexFor key hashSize ∧ indexFor key hashSize < hashSize := by
  rw [indexFor, toInt_remainder]
  simp only [hashSize]
  omega

/-- The two bytes of an accented letter sum up to -148. -/
example : indexFor (CStr.ofBlock [0xC3, 0xA9]) hashSize = 108 := by decide

variable {h h' : Hash α} {chain : ℤ → List Addr}

theorem slot_eq (hr : Repr h chain) (key : CStr) :
    h.slot (indexFor key hashSize) = .ok (chain (indexFor key hashSize)).head? := by
  rw [slot, if_pos (indexFor_range key), hr.table]

/-- A chain is no longer than there have been allocations. -/
theorem Repr.length_le (hr : Repr h chain) (i : ℤ) : (chain i).length ≤ h.fresh := by
  exact length_le_of_bounded (hr.nodup i) (hr.bound i)

theorem Repr.exists_heap (hr : Repr h chain) {i : ℤ} {a : Addr} (ha : a ∈ chain i) :
    ∃ n, h.heap a = some n := by
  obtain ⟨t, ht, -⟩ := hr.own i a ha
  obtain ⟨n, hn, -⟩ := Option.map_eq_some_iff.mp ht
  exact ⟨n, hn⟩

/-- The chains are disjoint. -/
theorem Repr.index_eq (hr : Repr h chain) {i j : ℤ} {a : Addr} (hi : a ∈ chain i)
    (hj : a ∈ chain j) : i = j := by
  obtain ⟨s, hs, rfl⟩ := hr.own i a hi
  obtain ⟨t, ht, rfl⟩ := hr.own j a hj
  rw [hs, Option.some.injEq] at ht
  rw [ht]

/-- The key that is looked for is found, or it is in no node of its chain. -/
theorem Repr.find_spec (hr : Repr h chain) (key : CStr) :
    (∃ l₁ a l₂ t, chain (indexFor key hashSize) = l₁ ++ a :: l₂ ∧ h.tupleAt a = some t ∧
      t.key = key ∧ h.find key (indexFor key hashSize) = .ok (l₁.getLast?, some a)) ∨
    ((∀ a ∈ chain (indexFor key hashSize), ∀ t, h.tupleAt a = some t → t.key ≠ key) ∧
      h.find key (indexFor key hashSize) = .ok ((chain (indexFor key hashSize)).getLast?, none)) := by
  generalize hi : indexFor key hashSize = i
  have hfind : h.find key i = findFrom h.succ
      (fun a => (h.tupleAt a).any fun t => t.key == key) (h.fresh + 1) none (chain i).head? := by
    rw [find, ← hi, slot_eq hr]
    rfl
  by_cases hex : ∃ a ∈ chain i, ∃ t, h.tupleAt a = some t ∧ t.key = key
  · left
    obtain ⟨a, ha, t, ht, hkey⟩ := hex
    obtain ⟨l₁, l₂, hl⟩ := List.append_of_mem ha
    refine ⟨l₁, a, l₂, t, hl, ht, hkey, ?_⟩
    have hlinks := hr.links i
    have hlen := hr.length_le i
    have hnodup := hr.nodup i
    have hbefore : ∀ b ∈ l₁, ((h.tupleAt b).any fun t => t.key == key) = false := by
      intro b hb
      obtain ⟨s, hs, -⟩ := hr.own i b (by simp [hl, hb])
      have hne : s.key ≠ key := by
        intro hsk
        obtain rfl := hr.unique i b (by simp [hl, hb]) a ha s t hs ht (hsk.trans hkey.symm)
        rw [hl, List.nodup_middle, List.nodup_cons] at hnodup
        exact hnodup.1 (by simp [hb])
      simpa [hs] using hne
    rw [hfind]
    rw [hl] at hlinks hlen ⊢
    rw [findFrom_eq hlinks hbefore (by simp [ht, hkey]) none (by simp at hlen; omega), Option.or_none]
    rfl
  · right
    have hne : ∀ a ∈ chain i, ∀ t, h.tupleAt a = some t → t.key ≠ key :=
      fun a ha t ht hkey => hex ⟨a, ha, t, ht, hkey⟩
    refine ⟨hne, ?_⟩
    have hlinks := hr.links i
    rw [← List.append_nil (chain i)] at hlinks
    have hbefore : ∀ b ∈ chain i, ((h.tupleAt b).any fun t => t.key == key) = false := by
      intro b hb
      obtain ⟨s, hs, -⟩ := hr.own i b hb
      simpa [hs] using hne b hb s hs
    have hrun := findFrom_eq hlinks hbefore (by simp) none (Nat.lt_succ_of_le (hr.length_le i))
    rw [List.append_nil, Option.or_none] at hrun
    rw [hfind, hrun]
    rfl

/-! ### Changes of a chain -/

/-- In the chain of a key, the nodes `old` that hold the key are exchanged for `new`. -/
structure Exchanged (h h' : Hash α) (chain : ℤ → List Addr) (key : CStr)
    (l₁ old new l₂ : List Addr) : Prop where
  /-- Where the nodes are. -/
  split : chain (indexFor key hashSize) = l₁ ++ (old ++ l₂)
  /-- They are those with the key. -/
  mem_old : ∀ a ∈ chain (indexFor key hashSize), ∀ t, h.tupleAt a = some t →
    (a ∈ old ↔ t.key = key)
  /-- There is at most one new node, with the same key. -/
  new_nodup : new.Nodup
  new_key : ∀ a ∈ new, ∃ t, h'.tupleAt a = some t ∧ t.key = key
  new_unique : ∀ a ∈ new, ∀ b ∈ new, a = b
  /-- It is newly allocated. -/
  new_fresh : ∀ a ∈ new, h.fresh ≤ a ∧ a < h'.fresh
  fresh_le : h.fresh ≤ h'.fresh
  /-- The links lead around the old nodes. -/
  table : h'.hash = if l₁ = [] then
    Function.update h.hash (indexFor key hashSize) (new ++ l₂).head? else h.hash
  last : ∀ b ∈ l₁.getLast?, h'.succ b = some (new ++ l₂).head?
  new_links : Links h'.succ new l₂.head?
  /-- The other nodes stay as they are. -/
  other_succ : ∀ a, a ∉ old → a < h.fresh → (∀ b ∈ l₁.getLast?, a ≠ b) → h'.succ a = h.succ a
  other_tuple : ∀ a, a ∉ old → a < h.fresh → h'.tupleAt a = h.tupleAt a

/-- The chains after an exchange. -/
def exchange (chain : ℤ → List Addr) (key : CStr) (ids : List Addr) : ℤ → List Addr :=
  Function.update chain (indexFor key hashSize) ids

variable {key : CStr} {l₁ old new l₂ : List Addr}

theorem Exchanged.not_mem_old (hx : Exchanged h h' chain key l₁ old new l₂) (hr : Repr h chain)
    {a : Addr} (ha : a ∈ l₁ ++ l₂) : a ∉ old := by
  have hnodup := hr.nodup (indexFor key hashSize)
  rw [hx.split] at hnodup
  intro hold
  rcases List.mem_append.mp ha with h₁ | h₂
  · exact (List.nodup_append.mp hnodup).2.2 a h₁ a (by simp [hold]) rfl
  · exact (List.nodup_append.mp (List.nodup_append.mp hnodup).2.1).2.2 a hold a h₂ rfl

/-- The nodes of the chains after an exchange: those that stay, and the new ones. -/
theorem Exchanged.mem_exchange (hx : Exchanged h h' chain key l₁ old new l₂) (hr : Repr h chain)
    {i : ℤ} {a : Addr} :
    a ∈ exchange chain key (l₁ ++ (new ++ l₂)) i ↔
      (a ∈ chain i ∧ a ∉ old) ∨ (i = indexFor key hashSize ∧ a ∈ new) := by
  by_cases hi : i = indexFor key hashSize
  · subst hi
    simp only [exchange, Function.update_self, hx.split, List.mem_append, true_and]
    constructor
    · rintro (h₁ | hnew | h₂)
      · exact .inl ⟨.inl h₁, hx.not_mem_old hr (by simp [h₁])⟩
      · exact .inr hnew
      · exact .inl ⟨.inr (.inr h₂), hx.not_mem_old hr (by simp [h₂])⟩
    · rintro (⟨h₁ | hold | h₂, hnot⟩ | hnew)
      · exact .inl h₁
      · exact absurd hold hnot
      · exact .inr (.inr h₂)
      · exact .inr (.inl hnew)
  · simp only [exchange, Function.update_of_ne hi, hi, false_and, or_false]
    constructor
    · intro ha
      refine ⟨ha, fun hold => hi (hr.index_eq ha ?_)⟩
      rw [hx.split]
      simp [hold]
    · exact And.left

/-- A node that stays. -/
theorem Exchanged.tuple_kept (hx : Exchanged h h' chain key l₁ old new l₂) (hr : Repr h chain)
    {i : ℤ} {a : Addr} (ha : a ∈ chain i) (hold : a ∉ old) : h'.tupleAt a = h.tupleAt a :=
  hx.other_tuple a hold (hr.bound i a ha)

/-- A node that stays has another key. -/
theorem Exchanged.key_ne (hx : Exchanged h h' chain key l₁ old new l₂) (hr : Repr h chain)
    {i : ℤ} {a : Addr} (ha : a ∈ chain i) (hold : a ∉ old) {t : Tuple α}
    (ht : h.tupleAt a = some t) : t.key ≠ key := by
  rintro rfl
  obtain ⟨s, hs, rfl⟩ := hr.own i a ha
  rw [ht, Option.some.injEq] at hs
  subst hs
  exact hold ((hx.mem_old a ha t ht).mpr rfl)

theorem Exchanged.nodup (hx : Exchanged h h' chain key l₁ old new l₂) (hr : Repr h chain) :
    (l₁ ++ (new ++ l₂)).Nodup := by
  have hnodup := hr.nodup (indexFor key hashSize)
  rw [hx.split] at hnodup
  have hrest : (l₁ ++ l₂).Nodup :=
    hnodup.sublist ((List.sublist_append_right old l₂).append_left l₁)
  have hnew : ∀ a ∈ new, a ∉ l₁ ++ l₂ := by
    intro a ha hmem
    have hlt : a < h.fresh := by
      apply hr.bound (indexFor key hashSize)
      rw [hx.split]
      simp only [List.mem_append] at hmem ⊢
      tauto
    exact absurd (hx.new_fresh a ha).1 (Nat.not_le.mpr hlt)
  rw [List.nodup_append] at hrest ⊢
  refine ⟨hrest.1, ?_, ?_⟩
  · rw [List.nodup_append]
    refine ⟨hx.new_nodup, hrest.2.1, ?_⟩
    rintro a ha b hb rfl
    exact hnew a ha (by simp [hb])
  · rintro a ha b hb rfl
    rcases List.mem_append.mp hb with hb | hb
    · exact hnew a hb (by simp [ha])
    · exact hrest.2.2 a ha a hb rfl

/-- The chains are linked again. -/
theorem Exchanged.links (hx : Exchanged h h' chain key l₁ old new l₂) (hr : Repr h chain)
    (i : ℤ) : Links h'.succ (exchange chain key (l₁ ++ (new ++ l₂)) i) none := by
  by_cases hi : i = indexFor key hashSize
  · subst hi
    have hlinks := hr.links (indexFor key hashSize)
    have hnodup := hr.nodup (indexFor key hashSize)
    have hbound := hr.bound (indexFor key hashSize)
    rw [hx.split] at hlinks hnodup hbound
    rw [exchange, Function.update_self]
    refine links_replace old new hlinks hnodup ?_ ?_ ?_
    · rw [Option.or_none]
      exact hx.new_links
    · rw [Option.or_none]
      exact hx.last
    · intro a ha
      refine hx.other_succ a (hx.not_mem_old hr ha) (hbound a ?_)
      simp only [List.mem_append] at ha ⊢
      tauto
  · rw [exchange, Function.update_of_ne hi]
    have hother : ∀ a ∈ chain i, ∀ b ∈ l₁ ++ (old ++ l₂), a ≠ b := by
      rintro a ha b hb rfl
      rw [← hx.split] at hb
      exact hi (hr.index_eq ha hb)
    refine links_congr (fun a ha => hx.other_succ a ?_ (hr.bound i a ha) ?_) (hr.links i)
    · intro hold
      exact hother a ha a (by simp [hold]) rfl
    · intro b hb
      exact hother a ha b (by simp [List.mem_of_getLast? hb])

theorem Exchanged.repr (hx : Exchanged h h' chain key l₁ old new l₂) (hr : Repr h chain) :
    Repr h' (exchange chain key (l₁ ++ (new ++ l₂))) where
  table i := by
    have hslot := hr.table (indexFor key hashSize)
    rw [hx.split] at hslot
    by_cases hi : i = indexFor key hashSize
    · subst hi
      rw [hx.table, exchange, Function.update_self]
      cases l₁ with
      | nil => simp
      | cons b t => simpa using hslot
    · rw [exchange, Function.update_of_ne hi, hx.table]
      split
      · rw [Function.update_of_ne hi, hr.table]
      · exact hr.table i
  links := hx.links hr
  nodup i := by
    by_cases hi : i = indexFor key hashSize
    · subst hi
      rw [exchange, Function.update_self]
      exact hx.nodup hr
    · rw [exchange, Function.update_of_ne hi]
      exact hr.nodup i
  own i a ha := by
    rcases (hx.mem_exchange hr).mp ha with ⟨ha, hold⟩ | ⟨rfl, hnew⟩
    · rw [hx.tuple_kept hr ha hold]
      exact hr.own i a ha
    · obtain ⟨t, ht, rfl⟩ := hx.new_key a hnew
      exact ⟨t, ht, rfl⟩
  unique i a ha b hb s t hs ht hkey := by
    rcases (hx.mem_exchange hr).mp ha with ⟨ha, hold⟩ | ⟨-, hnew⟩ <;>
      rcases (hx.mem_exchange hr).mp hb with ⟨hb, hold'⟩ | ⟨-, hnew'⟩
    · rw [hx.tuple_kept hr ha hold] at hs
      rw [hx.tuple_kept hr hb hold'] at ht
      exact hr.unique i a ha b hb s t hs ht hkey
    · rw [hx.tuple_kept hr ha hold] at hs
      obtain ⟨u, hu, huk⟩ := hx.new_key b hnew'
      rw [ht, Option.some.injEq] at hu
      exact absurd (hkey.trans (hu ▸ huk)) (hx.key_ne hr ha hold hs)
    · rw [hx.tuple_kept hr hb hold'] at ht
      obtain ⟨u, hu, huk⟩ := hx.new_key a hnew
      rw [hs, Option.some.injEq] at hu
      exact absurd (hkey.symm.trans (hu ▸ huk)) (hx.key_ne hr hb hold' ht)
    · exact hx.new_unique a hnew b hnew'
  bound i a ha := by
    rcases (hx.mem_exchange hr).mp ha with ⟨ha, -⟩ | ⟨-, ha⟩
    · exact (hr.bound i a ha).trans_le hx.fresh_le
    · exact (hx.new_fresh a ha).2

/-- The items after an exchange: those with another key, and the new one. -/
theorem Exchanged.holds_iff (hx : Exchanged h h' chain key l₁ old new l₂) (hr : Repr h chain)
    {t : Tuple α} :
    Holds h' (exchange chain key (l₁ ++ (new ++ l₂))) t ↔
      (t.key ≠ key ∧ Holds h chain t) ∨ ∃ a ∈ new, h'.tupleAt a = some t := by
  constructor
  · rintro ⟨a, ha, ht⟩
    rcases (hx.mem_exchange hr).mp ha with ⟨ha, hold⟩ | ⟨-, ha⟩
    · rw [hx.tuple_kept hr ha hold] at ht
      exact .inl ⟨hx.key_ne hr ha hold ht, a, ha, ht⟩
    · exact .inr ⟨a, ha, ht⟩
  · rintro (⟨hkey, a, ha, ht⟩ | ⟨a, ha, ht⟩)
    · have hold : a ∉ old := by
        intro hold
        have hmem : a ∈ chain (indexFor key hashSize) := by
          rw [hx.split]
          simp [hold]
        exact hkey ((hx.mem_old a hmem t ht).mp hold)
      refine ⟨a, (hx.mem_exchange hr).mpr (.inl ⟨ha, hold⟩), ?_⟩
      rw [hx.tuple_kept hr ha hold]
      exact ht
    · obtain ⟨u, hu, huk⟩ := hx.new_key a ha
      rw [ht, Option.some.injEq] at hu
      exact ⟨a, (hx.mem_exchange hr).mpr (.inr ⟨by rw [hu, huk], ha⟩), ht⟩

/-! ### The operations -/

theorem deref_eq {a : Addr} {n : HashNode α} (hn : h.heap a = some n) :
    h.deref (some a) = .ok n := by
  simp only [deref, hn]

theorem setNext_eq {a : Addr} {n : HashNode α} (hn : h.heap a = some n) (q : Option Addr) :
    h.setNext (some a) q =
      .ok { h with heap := Function.update h.heap a (some { n with next := q }) } := by
  simp only [setNext, hn]

theorem freeNode_eq {a : Addr} {n : HashNode α} (hn : h.heap a = some n) :
    h.freeNode (some a) = .ok { h with heap := Function.update h.heap a none } := by
  simp only [freeNode, hn]

/-- The table after `relink`. -/
def relinked (h : Hash α) (i : ℤ) (prev item : Option Addr) : Hash α :=
  { h with
    hash := if prev = none then Function.update h.hash i item else h.hash
    heap := fun a =>
      if some a = prev then (h.heap a).map fun n => { n with next := item } else h.heap a }

theorem relink_eq {prev : Option Addr} (hprev : ∀ b ∈ prev, ∃ n, h.heap b = some n) (key : CStr)
    (item : Option Addr) :
    h.relink (indexFor key hashSize) prev item =
      .ok (h.relinked (indexFor key hashSize) prev item) := by
  cases prev with
  | none => simp [relink, setSlot, relinked, indexFor_range key]
  | some b =>
    obtain ⟨n, hn⟩ := hprev b rfl
    rw [relink, if_neg (by simp), setNext_eq hn]
    simp only [relinked, reduceCtorEq, if_false, Option.some.injEq, Except.ok.injEq]
    congr 1
    funext a
    by_cases hab : a = b
    · simp [hab, hn]
    · simp [hab]

/-- The link of a node in the middle of a chain. -/
theorem Repr.heap_middle (hr : Repr h chain) {i : ℤ} {a : Addr} (hl : chain i = l₁ ++ a :: l₂) :
    ∃ n, h.heap a = some n ∧ n.next = l₂.head? := by
  obtain ⟨n, hn⟩ := hr.exists_heap (i := i) (a := a) (by simp [hl])
  have hlinks := hr.links i
  rw [hl, links_append] at hlinks
  have hsucc : some n.next = some (l₂.head?.or none) := by
    have := hlinks.2.1
    rwa [succ, hn] at this
  rw [Option.or_none] at hsucc
  exact ⟨n, hn, Option.some.inj hsucc⟩

/-- The last node in front of some point of a chain. -/
theorem Repr.heap_last (hr : Repr h chain) {i : ℤ} (hl : chain i = l₁ ++ l₂) :
    ∀ b ∈ l₁.getLast?, ∃ n, h.heap b = some n := by
  intro b hb
  exact hr.exists_heap (i := i) (by simp [hl, List.mem_of_getLast? hb])

/-- A node that is found is the only one with its key. -/
theorem Repr.mem_singleton_iff (hr : Repr h chain) {i : ℤ} {a : Addr} (ha : a ∈ chain i)
    {t : Tuple α} (ht : h.tupleAt a = some t) :
    ∀ b ∈ chain i, ∀ s, h.tupleAt b = some s → (b ∈ [a] ↔ s.key = t.key) := by
  intro b hb s hs
  rw [List.mem_singleton]
  constructor
  · rintro rfl
    rw [hs, Option.some.injEq] at ht
    rw [ht]
  · exact hr.unique i b hb a ha s t hs ht

/-- The nodes in front are older than the allocation to come, and not the node found. -/
theorem Repr.last_ne (hr : Repr h chain) {i : ℤ} {a : Addr} (hl : chain i = l₁ ++ a :: l₂) :
    ∀ b ∈ l₁.getLast?, b ≠ a := by
  rintro b hb rfl
  have hnodup := hr.nodup i
  rw [hl, List.nodup_append] at hnodup
  exact hnodup.2.2 b (List.mem_of_getLast? hb) b (by simp) rfl

theorem Repr.last_lt (hr : Repr h chain) {i : ℤ} (hl : chain i = l₁ ++ l₂) :
    ∀ b ∈ l₁.getLast?, b < h.fresh := by
  intro b hb
  exact hr.bound i b (by simp [hl, List.mem_of_getLast? hb])

/-- The heap when a node with the item `t` has been put behind `prev`, and in front of
`next`. -/
def linked (h : Hash α) (t : Tuple α) (prev next : Option Addr) (a : Addr) :
    Option (HashNode α) :=
  if a = h.fresh then some ⟨next, t⟩
  else if some a = prev then (h.heap a).map fun n => { n with next := some h.fresh }
  else h.heap a

/-- The run of `Hash_set` with a key that is there. -/
theorem Repr.set_found_run (hr : Repr h chain) {a : Addr} (value : α) (length : ℕ)
    (hl : chain (indexFor key hashSize) = l₁ ++ a :: l₂)
    (hfind : h.find key (indexFor key hashSize) = .ok (l₁.getLast?, some a)) :
    h.set key value length true = .ok (true, { h with
      hash := if l₁.getLast? = none then
        Function.update h.hash (indexFor key hashSize) (some h.fresh) else h.hash
      heap := Function.update (h.linked ⟨key, value, length⟩ l₁.getLast? l₂.head?) a none
      fresh := h.fresh + 1 }) := by
  obtain ⟨n, hn, hnext⟩ := hr.heap_middle hl
  have hlt := hr.last_lt hl
  have haf : a ≠ h.fresh := Nat.ne_of_lt (hr.bound (indexFor key hashSize) a (by simp [hl]))
  have hlast : some a ≠ l₁.getLast? := fun hb => hr.last_ne hl a hb.symm rfl
  have hlast' : some h.fresh ≠ l₁.getLast? := fun hb => Nat.lt_irrefl _ (hlt _ hb.symm)
  have hprev : ∀ b ∈ l₁.getLast?, ∃ m,
      Function.update h.heap h.fresh (some ⟨none, key, value, length⟩) b = some m := by
    intro b hb
    rw [Function.update_of_ne (Nat.ne_of_lt (hlt b hb))]
    exact hr.heap_last hl b hb
  rw [set]
  refine bind_eq_ok.mpr ⟨_, hfind, ?_⟩
  simp only [newNode, if_true, reduceCtorEq, if_false, ne_eq, not_false_eq_true]
  refine bind_eq_ok.mpr ⟨_, relink_eq hprev key _, bind_eq_ok.mpr ⟨n, deref_eq ?_,
    bind_eq_ok.mpr ⟨_, setNext_eq (n := ⟨none, key, value, length⟩) ?_ _,
      bind_eq_ok.mpr ⟨_, setNext_eq (n := n) ?_ _,
        bind_eq_ok.mpr ⟨_, freeNode_eq (Function.update_self _ _ _), ?_⟩⟩⟩⟩⟩
  · simp [relinked, hlast, haf, hn]
  · simp [relinked, hlast']
  · simp [relinked, hlast, haf, hn]
  · simp only [relinked, hnext, Function.update_idem]
    congr 3
    funext x
    by_cases hxa : x = a
    · simp [hxa]
    · by_cases hxf : x = h.fresh
      · simp [linked, hxf, haf.symm]
      · simp [linked, hxa, hxf]

/-- The run of `Hash_set` with a key that is not there. -/
theorem Repr.set_missing_run (hr : Repr h chain) (value : α) (length : ℕ)
    (hfind : h.find key (indexFor key hashSize) =
      .ok ((chain (indexFor key hashSize)).getLast?, none)) :
    h.set key value length true = .ok (true, { h with
      hash := if (chain (indexFor key hashSize)).getLast? = none then
        Function.update h.hash (indexFor key hashSize) (some h.fresh) else h.hash
      length := h.length + 1
      heap := h.linked ⟨key, value, length⟩ (chain (indexFor key hashSize)).getLast? none
      fresh := h.fresh + 1 }) := by
  generalize hi : indexFor key hashSize = i at *
  have hl : chain i = chain i ++ [] := by simp
  have hlt := hr.last_lt hl
  have hlast : some h.fresh ≠ (chain i).getLast? := fun hb => Nat.lt_irrefl _ (hlt _ hb.symm)
  have hprev : ∀ b ∈ (chain i).getLast?, ∃ m,
      Function.update h.heap h.fresh (some ⟨none, key, value, length⟩) b = some m := by
    intro b hb
    rw [Function.update_of_ne (Nat.ne_of_lt (hlt b hb))]
    exact hr.heap_last hl b hb
  rw [set, hi]
  refine bind_eq_ok.mpr ⟨_, hfind, ?_⟩
  simp only [newNode, if_true, reduceCtorEq, if_false, ne_eq, not_true_eq_false]
  rw [← hi] at *
  refine bind_eq_ok.mpr ⟨_, relink_eq hprev key _, ?_⟩
  simp only [relinked]
  congr 3
  funext x
  by_cases hxf : x = h.fresh
  · simp [linked, hxf, hlast]
  · simp [linked, hxf]

/-- The run of `Hash_delete` with a key that is there. -/
theorem Repr.delete_found_run (hr : Repr h chain) {a : Addr} (hpos : 0 < h.length)
    (hl : chain (indexFor key hashSize) = l₁ ++ a :: l₂)
    (hfind : h.find key (indexFor key hashSize) = .ok (l₁.getLast?, some a)) :
    h.delete key = .ok (true, { h with
      hash := if l₁.getLast? = none then
        Function.update h.hash (indexFor key hashSize) l₂.head? else h.hash
      length := h.length - 1
      heap := Function.update (fun x => if some x = l₁.getLast? then
        (h.heap x).map fun n => { n with next := l₂.head? } else h.heap x) a none }) := by
  obtain ⟨n, hn, hnext⟩ := hr.heap_middle hl
  have hlast : some a ≠ l₁.getLast? := fun hb => hr.last_ne hl a hb.symm rfl
  have hrelink := relink_eq (hr.heap_last hl) key n.next
  have hheap : (h.relinked (indexFor key hashSize) l₁.getLast? n.next).heap a = some n := by
    simp [relinked, hlast, hn]
  rw [delete, if_pos hpos]
  refine bind_eq_ok.mpr ⟨_, hfind, ?_⟩
  simp only [reduceCtorEq, if_false]
  refine bind_eq_ok.mpr ⟨n, deref_eq hn, bind_eq_ok.mpr ⟨_, hrelink, ?_⟩⟩
  by_cases hfirst : l₁.getLast? = none
  · rw [if_pos hfirst]
    refine bind_eq_ok.mpr ⟨_, rfl, bind_eq_ok.mpr ⟨_, freeNode_eq hheap, ?_⟩⟩
    simp only [relinked, hnext]
    rfl
  · rw [if_neg hfirst]
    refine bind_eq_ok.mpr ⟨_, setNext_eq hheap _,
      bind_eq_ok.mpr ⟨_, freeNode_eq (Function.update_self _ _ _), ?_⟩⟩
    simp only [relinked, hnext, Function.update_idem]
    rfl

/-- A new node is linked in, and old ones are freed. -/
theorem exchanged_linked (hr : Repr h chain) {t : Tuple α}
    (hl : chain (indexFor t.key hashSize) = l₁ ++ (old ++ l₂))
    (hold : ∀ a ∈ chain (indexFor t.key hashSize), ∀ s, h.tupleAt a = some s →
      (a ∈ old ↔ s.key = t.key))
    (hhash : h'.hash = if l₁.getLast? = none then
      Function.update h.hash (indexFor t.key hashSize) (some h.fresh) else h.hash)
    (hfresh : h'.fresh = h.fresh + 1)
    (hheap : ∀ x ∉ old, h'.heap x = h.linked t l₁.getLast? l₂.head? x) :
    Exchanged h h' chain t.key l₁ old [h.fresh] l₂ := by
  have hbound := hr.bound (indexFor t.key hashSize)
  have hnodup := hr.nodup (indexFor t.key hashSize)
  rw [hl] at hbound hnodup
  have hnew : h'.heap h.fresh = some ⟨l₂.head?, t⟩ := by
    have hnot : h.fresh ∉ old := fun hmem => Nat.lt_irrefl _ (hbound _ (by simp [hmem]))
    simp [hheap _ hnot, linked]
  have hlast : ∀ b ∈ l₁.getLast?, h'.succ b = some (some h.fresh) := by
    intro b hb
    have hb₁ := List.mem_of_getLast? hb
    have hnot : b ∉ old := fun hmem =>
      (List.nodup_append.mp hnodup).2.2 b hb₁ b (by simp [hmem]) rfl
    have hlt : b < h.fresh := hbound b (by simp [hb₁])
    obtain ⟨n, hn⟩ := hr.heap_last hl b hb
    have hsome : some b = l₁.getLast? := Eq.symm hb
    simp [succ, hheap b hnot, linked, Nat.ne_of_lt hlt, hsome, hn]
  have hother : ∀ a, a ∉ old → a < h.fresh → h'.heap a =
      if some a = l₁.getLast? then (h.heap a).map fun n => { n with next := some h.fresh }
      else h.heap a := by
    intro a hnot hlt
    rw [hheap a hnot, linked, if_neg (Nat.ne_of_lt hlt)]
  exact {
    split := hl
    mem_old := hold
    new_nodup := by simp
    new_key := by simp [tupleAt, hnew]
    new_unique := by simp
    new_fresh := by simp [hfresh]
    fresh_le := by simp [hfresh]
    table := by simpa [List.getLast?_eq_none_iff] using hhash
    last := hlast
    new_links := by simp [Links, succ, hnew]
    other_succ := by
      intro a hnot hlt hne
      have hsome : some a ≠ l₁.getLast? := fun hb => hne a hb.symm rfl
      rw [succ, hother a hnot hlt, if_neg hsome, succ]
    other_tuple := by
      intro a hnot hlt
      rw [tupleAt, hother a hnot hlt, tupleAt]
      split
      · cases h.heap a <;> rfl
      · rfl }

/-- A node is freed. -/
theorem exchanged_unlinked (hr : Repr h chain) {a : Addr}
    (hl : chain (indexFor key hashSize) = l₁ ++ ([a] ++ l₂))
    (hold : ∀ b ∈ chain (indexFor key hashSize), ∀ s, h.tupleAt b = some s →
      (b ∈ [a] ↔ s.key = key))
    (hhash : h'.hash = if l₁.getLast? = none then
      Function.update h.hash (indexFor key hashSize) l₂.head? else h.hash)
    (hfresh : h'.fresh = h.fresh)
    (hheap : ∀ x ≠ a, h'.heap x = if some x = l₁.getLast? then
      (h.heap x).map fun n => { n with next := l₂.head? } else h.heap x) :
    Exchanged h h' chain key l₁ [a] [] l₂ where
  split := hl
  mem_old := hold
  new_nodup := List.nodup_nil
  new_key := by simp
  new_unique := by simp
  new_fresh := by simp
  fresh_le := hfresh.ge
  table := by simpa [List.getLast?_eq_none_iff] using hhash
  last := by
    intro b hb
    obtain ⟨n, hn⟩ := hr.heap_last hl b hb
    have hsome : some b = l₁.getLast? := Eq.symm hb
    simp [succ, hheap b (hr.last_ne hl b hb), hsome, hn]
  new_links := trivial
  other_succ := by
    intro x hx _ hne
    have hsome : some x ≠ l₁.getLast? := fun hb => hne x hb.symm rfl
    rw [succ, hheap x (by simpa using hx), if_neg hsome, succ]
  other_tuple := by
    intro x hx _
    rw [tupleAt, hheap x (by simpa using hx), tupleAt]
    split
    · cases h.heap x <;> rfl
    · rfl

theorem tupleAt_linked {t : Tuple α} {prev next : Option Addr}
    (hheap : h'.heap h.fresh = h.linked t prev next h.fresh) : h'.tupleAt h.fresh = some t := by
  simp [tupleAt, hheap, linked]

/-- `Hash_set` of a key that is there. -/
theorem Repr.set_found (hr : Repr h chain) {a : Addr} {t : Tuple α} (value : α) (length : ℕ)
    (hl : chain (indexFor t.key hashSize) = l₁ ++ a :: l₂) (ht : h.tupleAt a = some t)
    (hfind : h.find t.key (indexFor t.key hashSize) = .ok (l₁.getLast?, some a)) :
    ∃ h', h.set t.key value length true = .ok (true, h') ∧ h'.length = h.length ∧
      Exchanged h h' chain t.key l₁ [a] [h.fresh] l₂ ∧
      h'.tupleAt h.fresh = some ⟨t.key, value, length⟩ := by
  have hfresh : h.fresh ≠ a := Nat.ne_of_gt (hr.bound (indexFor t.key hashSize) a (by simp [hl]))
  refine ⟨_, hr.set_found_run value length hl hfind, rfl, ?_, ?_⟩
  · refine exchanged_linked (t := ⟨t.key, value, length⟩) hr hl ?_ rfl rfl ?_
    · exact fun b hb s hs => hr.mem_singleton_iff (by simp [hl]) ht b hb s hs
    · intro x hx
      exact Function.update_of_ne (by simpa using hx) _ _
  · exact tupleAt_linked (Function.update_of_ne hfresh _ _)

/-- `Hash_set` of a key that is not there. -/
theorem Repr.set_missing (hr : Repr h chain) (value : α) (length : ℕ)
    (hne : ∀ a ∈ chain (indexFor key hashSize), ∀ t, h.tupleAt a = some t → t.key ≠ key)
    (hfind : h.find key (indexFor key hashSize) =
      .ok ((chain (indexFor key hashSize)).getLast?, none)) :
    ∃ h', h.set key value length true = .ok (true, h') ∧ h'.length = h.length + 1 ∧
      Exchanged h h' chain key (chain (indexFor key hashSize)) [] [h.fresh] [] ∧
      h'.tupleAt h.fresh = some ⟨key, value, length⟩ := by
  refine ⟨_, hr.set_missing_run value length hfind, rfl, ?_, tupleAt_linked rfl⟩
  refine exchanged_linked (t := ⟨key, value, length⟩) hr (by simp) ?_ rfl rfl fun x _ => rfl
  intro a ha s hs
  simpa using hne a ha s hs

/-- `Hash_delete` of a key that is there. -/
theorem Repr.delete_found (hr : Repr h chain) {a : Addr} {t : Tuple α} (hpos : 0 < h.length)
    (hl : chain (indexFor t.key hashSize) = l₁ ++ a :: l₂) (ht : h.tupleAt a = some t)
    (hfind : h.find t.key (indexFor t.key hashSize) = .ok (l₁.getLast?, some a)) :
    ∃ h', h.delete t.key = .ok (true, h') ∧ h'.length = h.length - 1 ∧
      Exchanged h h' chain t.key l₁ [a] [] l₂ := by
  refine ⟨_, hr.delete_found_run hpos hl hfind, rfl, ?_⟩
  refine exchanged_unlinked hr hl (hr.mem_singleton_iff (by simp [hl]) ht) rfl rfl ?_
  intro x hx
  simp [hx]

/-- `Hash_set` when there is no memory. -/
theorem set_no_memory {prev node : Option Addr}
    (hfind : h.find key (indexFor key hashSize) = .ok (prev, node)) (value : α) (length : ℕ) :
    h.set key value length false = .ok (false, h) := by
  rw [set]
  exact bind_eq_ok.mpr ⟨_, hfind, rfl⟩

/-- `Hash_delete` of a key that is not there. -/
theorem delete_missing {prev : Option Addr}
    (hfind : h.find key (indexFor key hashSize) = .ok (prev, none)) :
    h.delete key = .ok (false, h) := by
  rw [delete]
  split
  · exact bind_eq_ok.mpr ⟨_, hfind, rfl⟩
  · rfl

end Hash

end C2Hat
