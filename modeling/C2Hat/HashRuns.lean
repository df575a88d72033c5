import Mathlib.Data.Finmap
import C2Hat.Hash

/-!
# Runs of hash operations

What sequences of calls of `src/lib/hash/hash.c` do to a hash, from `Hash_new` on.  A
hash is a finite map from keys to values with their lengths, and `Hash_set` and
`Hash_delete` insert and erase a key.

## Main definitions

* `HashOp`, `HashOp.run`, `HashOp.spec` — the operations that change a hash, as they are
  and as operations on finite maps.
* `IsMap` — a hash that is read as a finite map.

## Main results

* `hash_is_map` — **a hash is a finite map**, after any operations.
-/

namespace C2Hat

open Clib

variable {α : Type}

/-- The items of a hash: for a key, its value and the length of it. -/
abbrev Items (α : Type) := Finmap fun _ : CStr => α × ℕ

/-! ### Operations -/

/-- The operations that change a hash; `alloc` is whether the allocations succeed. -/
inductive HashOp (α : Type)
  | set (key : CStr) (value : α) (length : ℕ) (alloc : Bool)
  | delete (key : CStr)

namespace HashOp

/-- The operation on a hash. -/
def run (h : Hash α) : HashOp α → Except Stuck (Bool × Hash α)
  | .set key value length alloc => h.set key value length alloc
  | .delete key => h.delete key

/-- The operation on a finite map: its result, and the map afterwards. -/
def spec (m : Items α) : HashOp α → Bool × Items α
  | .set key value length alloc => (alloc, if alloc then m.insert key (value, length) else m)
  | .delete key => (decide (key ∈ m), m.erase key)

/-- Operations one after the other, with their results. -/
def runAll (h : Hash α) : List (HashOp α) → Except Stuck (List Bool × Hash α)
  | [] => .ok ([], h)
  | op :: ops => do
    let (result, h) ← op.run h
    let (results, h) ← runAll h ops
    return (result :: results, h)

/-- The same on finite maps. -/
def specAll (m : Items α) : List (HashOp α) → List Bool × Items α
  | [] => ([], m)
  | op :: ops => ((op.spec m).1 :: (specAll (op.spec m).2 ops).1, (specAll (op.spec m).2 ops).2)

end HashOp

/-! ### Representation -/

namespace Hash

/-- The nodes of the table hold the items of the map. -/
structure Represents (h : Hash α) (m : Items α) (chain : ℤ → List Addr) : Prop where
  repr : Repr h chain
  holds_iff : ∀ t, Holds h chain t ↔ m.lookup t.key = some (t.value, t.length)
  length : h.length = m.keys.card

theorem represents_new : Represents (new : Hash α) ∅ fun _ => [] where
  repr := repr_new
  holds_iff t := by simp [Holds]
  length := rfl

variable {h h' : Hash α} {m : Items α} {chain : ℤ → List Addr} {key : CStr}

/-- The key is in the map when there is a node that holds it. -/
theorem Represents.lookup_of_mem (hm : Represents h m chain) {i : ℤ} {a : Addr} {t : Tuple α}
    (ha : a ∈ chain i) (ht : h.tupleAt a = some t) :
    m.lookup t.key = some (t.value, t.length) := by
  obtain ⟨s, hs, rfl⟩ := hm.repr.own i a ha
  rw [ht, Option.some.injEq] at hs
  subst hs
  exact (hm.holds_iff t).mp ⟨a, ha, ht⟩

theorem Represents.pos (hm : Represents h m chain) (hne : m.keys ≠ ∅) : 0 < h.length := by
  rw [hm.length]
  exact Finset.card_pos.mpr (Finset.nonempty_of_ne_empty hne)

theorem Represents.pos_of_lookup (hm : Represents h m chain) {v : α × ℕ}
    (hlookup : m.lookup key = some v) : 0 < h.length :=
  hm.pos (Finset.ne_empty_of_mem (Finmap.mem_keys.mpr (Finmap.mem_of_lookup_eq_some hlookup)))

/-- The search for a key. -/
theorem Represents.find (hm : Represents h m chain) (key : CStr) :
    (∃ l₁ a l₂ t, chain (indexFor key hashSize) = l₁ ++ a :: l₂ ∧ h.tupleAt a = some t ∧
      t.key = key ∧ h.find key (indexFor key hashSize) = .ok (l₁.getLast?, some a) ∧
      m.lookup key = some (t.value, t.length)) ∨
    ((∀ a ∈ chain (indexFor key hashSize), ∀ t, h.tupleAt a = some t → t.key ≠ key) ∧
      h.find key (indexFor key hashSize) = .ok ((chain (indexFor key hashSize)).getLast?, none) ∧
      m.lookup key = none) := by
  rcases hm.repr.find_spec key with ⟨l₁, a, l₂, t, hl, ht, rfl, hfind⟩ | ⟨hne, hfind⟩
  · exact .inl ⟨l₁, a, l₂, t, hl, ht, rfl, hfind,
      hm.lookup_of_mem (i := indexFor t.key hashSize) (by simp [hl]) ht⟩
  · refine .inr ⟨hne, hfind, ?_⟩
    rw [Option.eq_none_iff_forall_ne_some]
    rintro ⟨value, length⟩ hlookup
    obtain ⟨a, ha, ht⟩ := (hm.holds_iff ⟨key, value, length⟩).mpr hlookup
    exact hne a ha _ ht rfl

theorem keys_insert (m : Items α) (key : CStr) (v : α × ℕ) :
    (m.insert key v).keys = insert key m.keys := by
  ext x
  rw [Finmap.mem_keys, Finmap.mem_insert, Finset.mem_insert, Finmap.mem_keys]

theorem erase_of_notMem {key : CStr} (hkey : key ∉ m) : m.erase key = m := by
  apply Finmap.ext_lookup
  intro x
  by_cases hx : x = key
  · rw [hx, Finmap.lookup_erase, Finmap.lookup_eq_none.mpr hkey]
  · rw [Finmap.lookup_erase_ne hx]

/-- An exchange that puts a new item in. -/
theorem Represents.put (hm : Represents h m chain) {t : Tuple α} {l₁ old l₂ : List Addr}
    (hx : Exchanged h h' chain t.key l₁ old [h.fresh] l₂)
    (ht : h'.tupleAt h.fresh = some t)
    (hlen : h'.length = (insert t.key m.keys).card) :
    ∃ chain', Represents h' (m.insert t.key (t.value, t.length)) chain' := by
  refine ⟨_, hx.repr hm.repr, fun s => ?_, by rw [hlen, keys_insert]⟩
  rw [hx.holds_iff hm.repr, hm.holds_iff]
  simp only [List.mem_singleton, exists_eq_left, ht, Option.some.injEq]
  by_cases hkey : s.key = t.key
  · rw [hkey, Finmap.lookup_insert, Option.some.injEq, Prod.mk.injEq]
    constructor
    · rintro (⟨hne, -⟩ | rfl)
      · exact absurd rfl hne
      · exact ⟨rfl, rfl⟩
    · rintro ⟨hvalue, hlength⟩
      right
      cases s
      cases t
      simp_all
  · rw [Finmap.lookup_insert_of_ne _ hkey]
    constructor
    · rintro (⟨-, hlookup⟩ | rfl)
      · exact hlookup
      · exact absurd rfl hkey
    · exact fun hlookup => .inl ⟨hkey, hlookup⟩

/-- An exchange that only takes an item out. -/
theorem Represents.remove (hm : Represents h m chain) {l₁ old l₂ : List Addr}
    (hx : Exchanged h h' chain key l₁ old [] l₂) (hlen : h'.length = (m.keys.erase key).card) :
    ∃ chain', Represents h' (m.erase key) chain' := by
  refine ⟨_, hx.repr hm.repr, fun s => ?_, by rw [Finmap.keys_erase, hlen]⟩
  rw [hx.holds_iff hm.repr, hm.holds_iff]
  simp only [List.not_mem_nil, false_and, exists_const, or_false]
  by_cases hkey : s.key = key
  · rw [hkey, Finmap.lookup_erase]
    simp
  · rw [Finmap.lookup_erase_ne hkey]
    simp [hkey]

theorem Represents.set (hm : Represents h m chain) (key : CStr) (value : α) (length : ℕ)
    (alloc : Bool) :
    ∃ h' chain', h.set key value length alloc = .ok (alloc, h') ∧
      Represents h' (if alloc then m.insert key (value, length) else m) chain' := by
  rcases hm.find key with ⟨l₁, a, l₂, t, hl, ht, rfl, hfind, hlookup⟩ | ⟨hne, hfind, hlookup⟩
  · cases alloc with
    | false => exact ⟨h, chain, set_no_memory hfind value length, hm⟩
    | true =>
      obtain ⟨h', hrun, hlen, hx, ht'⟩ := hm.repr.set_found value length hl ht hfind
      have hmem : t.key ∈ m.keys := Finmap.mem_keys.mpr (Finmap.mem_of_lookup_eq_some hlookup)
      have hcard : h'.length = (insert t.key m.keys).card := by
        rw [Finset.insert_eq_of_mem hmem, hlen, hm.length]
      obtain ⟨chain', hm'⟩ := hm.put (t := ⟨t.key, value, length⟩) hx ht' hcard
      exact ⟨h', chain', hrun, hm'⟩
  · cases alloc with
    | false => exact ⟨h, chain, set_no_memory hfind value length, hm⟩
    | true =>
      obtain ⟨h', hrun, hlen, hx, ht'⟩ := hm.repr.set_missing value length hne hfind
      have hmem : key ∉ m.keys := fun hk => Finmap.lookup_eq_none.mp hlookup (Finmap.mem_keys.mp hk)
      have hcard : h'.length = (insert key m.keys).card := by
        rw [Finset.card_insert_of_notMem hmem, hlen, hm.length]
      obtain ⟨chain', hm'⟩ := hm.put (t := ⟨key, value, length⟩) hx ht' hcard
      exact ⟨h', chain', hrun, hm'⟩

theorem Represents.delete (hm : Represents h m chain) (key : CStr) :
    ∃ h' chain', h.delete key = .ok (decide (key ∈ m), h') ∧
      Represents h' (m.erase key) chain' := by
  rcases hm.find key with ⟨l₁, a, l₂, t, hl, ht, rfl, hfind, hlookup⟩ | ⟨-, hfind, hlookup⟩
  · have hmem : t.key ∈ m := Finmap.mem_of_lookup_eq_some hlookup
    obtain ⟨h', hrun, hlen, hx⟩ :=
      hm.repr.delete_found (hm.pos_of_lookup hlookup) hl ht hfind
    have hcard : h'.length = (m.keys.erase t.key).card := by
      rw [Finset.card_erase_of_mem (Finmap.mem_keys.mpr hmem), hlen, hm.length]
    obtain ⟨chain', hm'⟩ := hm.remove hx hcard
    exact ⟨h', chain', by rw [hrun, decide_eq_true hmem], hm'⟩
  · have hmem : key ∉ m := Finmap.lookup_eq_none.mp hlookup
    refine ⟨h, chain, by rw [delete_missing hfind, decide_eq_false hmem], ?_⟩
    rwa [erase_of_notMem hmem]

/-- The item with a key. -/
theorem Represents.lookup_eq (hm : Represents h m chain) (key : CStr) :
    h.lookup key = .ok ((m.lookup key).map fun v => ⟨key, v.1, v.2⟩) := by
  rw [Hash.lookup]
  rcases hm.find key with ⟨l₁, a, l₂, t, hl, ht, rfl, hfind, hlookup⟩ | ⟨-, hfind, hlookup⟩
  · obtain ⟨n, hn, rfl⟩ := Option.map_eq_some_iff.mp ht
    rw [if_pos (hm.pos_of_lookup hlookup), hlookup]
    refine bind_eq_ok.mpr ⟨_, hfind, ?_⟩
    simp only [reduceCtorEq, if_false]
    exact bind_eq_ok.mpr ⟨n, deref_eq hn, rfl⟩
  · rw [hlookup]
    split
    · exact bind_eq_ok.mpr ⟨_, hfind, rfl⟩
    · rfl

/-- A table with items has a chain with nodes, in whatever order the chains are looked
at. -/
theorem Represents.exists_slot (hm : Represents h m chain) (hpos : 0 < h.length) {is : List ℕ}
    (his : ∀ i < hashSize, i ∈ is) :
    ∃ (i : ℤ) (a : Addr) (l : List Addr),
      is.findSome? (fun i : ℕ => h.hash i) = some a ∧ chain i = a :: l := by
  obtain ⟨key, hkey⟩ := Finset.card_pos.mp (hm.length ▸ hpos)
  obtain ⟨⟨value, length⟩, hlookup⟩ := Finmap.mem_iff.mp (Finmap.mem_keys.mp hkey)
  obtain ⟨b, hb, -⟩ := (hm.holds_iff ⟨key, value, length⟩).mpr hlookup
  have hrange := indexFor_range key
  cases hfind : is.findSome? fun i : ℕ => h.hash i with
  | none =>
    have hlt : (indexFor key hashSize).toNat < hashSize := by omega
    have hslot := List.findSome?_eq_none_iff.mp hfind _ (his _ hlt)
    rw [Int.toNat_of_nonneg hrange.1, hm.repr.table, List.head?_eq_none_iff] at hslot
    rw [hslot] at hb
    simp at hb
  | some a =>
    obtain ⟨i, -, hi⟩ := List.exists_of_findSome?_eq_some hfind
    rw [hm.repr.table] at hi
    obtain ⟨l, hl⟩ := List.head?_eq_some_iff.mp hi
    exact ⟨i, a, l, rfl, hl⟩

/-- The item of a node is in the map. -/
theorem Represents.item (hm : Represents h m chain) {i : ℤ} {a : Addr} (ha : a ∈ chain i) :
    ∃ n, h.heap a = some n ∧
      m.lookup n.data.key = some (n.data.value, n.data.length) := by
  obtain ⟨n, hn⟩ := hm.repr.exists_heap ha
  exact ⟨n, hn, hm.lookup_of_mem ha (by simp [tupleAt, hn])⟩

theorem Represents.first (hm : Represents h m chain) (hpos : 0 < h.length) :
    ∃ t, h.first = .ok (some t) ∧ m.lookup t.key = some (t.value, t.length) := by
  obtain ⟨i, a, l, hfind, hl⟩ := hm.exists_slot hpos fun i hi => List.mem_range.mpr hi
  obtain ⟨n, hn, hlookup⟩ := hm.item (i := i) (a := a) (by simp [hl])
  refine ⟨n.data, ?_, hlookup⟩
  rw [Hash.first, if_pos hpos, hfind]
  exact bind_eq_ok.mpr ⟨n, deref_eq hn, rfl⟩

theorem Represents.last (hm : Represents h m chain) (hpos : 0 < h.length) :
    ∃ t, h.last = .ok (some t) ∧ m.lookup t.key = some (t.value, t.length) := by
  obtain ⟨i, a, l, hfind, hl⟩ := hm.exists_slot hpos
    fun i hi => List.mem_reverse.mpr (List.mem_range.mpr hi)
  have hlinks := hm.repr.links i
  have hlen := hm.repr.length_le i
  rw [hl] at hlinks hlen
  rw [List.length_cons] at hlen
  obtain ⟨n, hn, hlookup⟩ := hm.item (i := i) (a := (a :: l).getLast (by simp)) (by simp [hl])
  refine ⟨n.data, ?_, hlookup⟩
  rw [Hash.last, if_pos hpos, hfind]
  exact bind_eq_ok.mpr ⟨_, lastFrom_eq hlinks (by omega), bind_eq_ok.mpr ⟨n, deref_eq hn, rfl⟩⟩

end Hash

/-! ### The finite map -/

/-- The functions that read a hash read the map. -/
structure IsMap (h : Hash α) (m : Items α) : Prop where
  /-- `Hash_get` and `Hash_getValue`. -/
  get : ∀ key, h.get key = .ok ((m.lookup key).map fun v => ⟨key, v.1, v.2⟩)
  getValue : ∀ key, h.getValue key = .ok ((m.lookup key).map Prod.fst)
  /-- `Hash_length` and `Hash_empty`. -/
  length : h.length = m.keys.card
  empty : h.empty = true ↔ m.keys = ∅
  /-- `Hash_first` and `Hash_last` of an empty hash. -/
  ends_empty : m.keys = ∅ → h.first = .ok none ∧ h.last = .ok none
  /-- The same of others. -/
  first : m.keys ≠ ∅ → ∃ t, h.first = .ok (some t) ∧ m.lookup t.key = some (t.value, t.length)
  last : m.keys ≠ ∅ → ∃ t, h.last = .ok (some t) ∧ m.lookup t.key = some (t.value, t.length)

theorem Hash.Represents.isMap {h : Hash α} {m : Items α} {chain : ℤ → List Addr}
    (hm : h.Represents m chain) : IsMap h m where
  get key := hm.lookup_eq key
  getValue key := by
    refine bind_eq_ok.mpr ⟨_, hm.lookup_eq key, ?_⟩
    rw [Option.map_map]
    rfl
  length := hm.length
  empty := by rw [Hash.empty, beq_iff_eq, hm.length, Finset.card_eq_zero]
  ends_empty hm' := by
    have hzero : ¬ h.length > 0 := by simp [hm.length, hm']
    constructor
    · rw [Hash.first, if_neg hzero]
      rfl
    · rw [Hash.last, if_neg hzero]
      rfl
  first hne := hm.first (hm.pos hne)
  last hne := hm.last (hm.pos hne)

theorem HashOp.run_eq {h : Hash α} {m : Items α} {chain : ℤ → List Addr}
    (hm : h.Represents m chain) (op : HashOp α) :
    ∃ h' chain', op.run h = .ok ((op.spec m).1, h') ∧ h'.Represents (op.spec m).2 chain' := by
  cases op with
  | set key value length alloc => exact hm.set key value length alloc
  | delete key => exact hm.delete key

/-- A run of operations, from any represented hash. -/
theorem HashOp.runAll_eq {h : Hash α} {m : Items α} {chain : ℤ → List Addr}
    (hm : h.Represents m chain) (ops : List (HashOp α)) :
    ∃ h' chain', HashOp.runAll h ops = .ok ((HashOp.specAll m ops).1, h') ∧
      h'.Represents (HashOp.specAll m ops).2 chain' := by
  induction ops generalizing h m chain with
  | nil => exact ⟨h, chain, rfl, hm⟩
  | cons op ops ih =>
    obtain ⟨h₁, chain₁, hrun, hm₁⟩ := op.run_eq hm
    obtain ⟨h₂, chain₂, hruns, hm₂⟩ := ih hm₁
    refine ⟨h₂, chain₂, ?_, hm₂⟩
    rw [HashOp.runAll]
    exact bind_eq_ok.mpr ⟨_, hrun, bind_eq_ok.mpr ⟨_, hruns, rfl⟩⟩

/-- **A hash is a finite map**: the operations from `Hash_new` on return what they
return on the map, whatever the keys, and the functions that read the hash then read
the map.  No index that is used lies outside of the table. -/
theorem hash_is_map (ops : List (HashOp α)) :
    (∃ h, HashOp.runAll Hash.new ops = .ok ((HashOp.specAll ∅ ops).1, h) ∧
      IsMap h (HashOp.specAll ∅ ops).2) ∧
    ∀ key, 0 ≤ indexFor key hashSize ∧ indexFor key hashSize < hashSize := by
  obtain ⟨h, chain, hrun, hm⟩ := HashOp.runAll_eq Hash.represents_new ops
  exact ⟨⟨h, hrun, hm.isMap⟩, Hash.indexFor_range⟩

end C2Hat
