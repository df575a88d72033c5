import C2Hat.CList

/-!
# Lists that are in order

A `Linked` list is a `CList` with the addresses of its nodes and the proof that it
represents them.  The operations of `list.c` keep a list in order, so they are
operations on `Linked` lists, none of which runs into a fault except `List_next`:
its cursor may dangle.

The simp lemmas say what each operation does to the addresses, to the cursor and to
the data; nothing else is needed of it later.
-/

namespace C2Hat

open Clib

/-- A list together with the addresses of its nodes, all of whose items have the
same size. -/
structure Linked (α : Type) (size : ℕ) where
  /-- The list. -/
  list : CList α
  /-- The addresses of its nodes. -/
  ids : List Addr
  /-- They are in order. -/
  repr : list.Repr ids
  /-- The size of the items. -/
  sized : ∀ a d n, list.content a = some (d, n) → n = size

namespace Linked

variable {α : Type} {size : ℕ}

/-- `List_new()`. -/
def new : Linked α size := ⟨.new, [], CList.repr_new, by simp [CList.new, CList.content]⟩

/-- The data of an item. -/
def data (l : Linked α size) (a : Addr) : Option α := (l.list.content a).map Prod.fst

/-- The list behind a result that is never a fault. -/
def settle (l : CList α) (r : Except Fault (Bool × CList α)) : CList α :=
  match r with
  | .ok r => r.2
  | .error _ => l

/-- `List_append`, with allocations that succeed. -/
def append (l : Linked α size) (value : α) : Linked α size where
  list := settle l.list (l.list.append value size true)
  ids := l.ids ++ [l.list.fresh]
  repr := by
    obtain ⟨l', hrun, hrepr, -⟩ := CList.append_spec l.repr value size
    rw [hrun]
    exact hrepr
  sized := by
    obtain ⟨l', hrun, -, -, -, hcontent⟩ := CList.append_spec l.repr value size
    intro a d n h
    rw [hrun] at h
    change l'.content a = _ at h
    rw [hcontent] at h
    split at h
    · cases h; rfl
    · exact l.sized a d n h

/-- What `List_delete` does at an index. -/
theorem delete_cases (l : Linked α size) (i : ℕ) :
    ∃ l', settle l.list (l.list.delete i) = l' ∧ l'.Repr (l.ids.eraseIdx i) ∧
      l'.fresh = l.list.fresh ∧
      l'.current = (if i = 0 ∧ l.ids ≠ [] then l.ids[1]? else l.list.current) ∧
      ∀ a, l'.content a = if l.ids[i]? = some a then none else l.list.content a := by
  by_cases hi : i < l.ids.length
  · have hsplit : l.ids = l.ids.take i ++ l.ids[i] :: l.ids.drop (i + 1) := by
      rw [List.getElem_cons_drop, List.take_append_drop]
    have hlen : (l.ids.take i).length = i := List.length_take_of_le (Nat.le_of_lt hi)
    have hrepr := l.repr
    rw [hsplit] at hrepr
    obtain ⟨l', hrun, hrepr', hcurrent, hfresh, hcontent⟩ := CList.delete_spec hrepr
    rw [hlen] at hrun
    have hnil : l.ids.take i = [] ↔ i = 0 ∧ l.ids ≠ [] := by
      rw [← List.length_eq_zero_iff, hlen]
      exact ⟨fun h => ⟨h, fun hnil => by simp [hnil] at hi⟩, And.left⟩
    refine ⟨l', by rw [hrun]; rfl, ?_, hfresh, ?_, fun a => ?_⟩
    · rw [List.eraseIdx_eq_take_drop_succ]
      exact hrepr'
    · rw [hcurrent]
      simp only [hnil]
      split
      · next h => rw [h.1, List.head?_drop]
      · rfl
    · rw [hcontent, List.getElem?_eq_getElem hi]
      simp only [Option.some.injEq, eq_comm]
  · have hcond : ¬ (l.list.empty = false ∧ (0 : ℤ) ≤ i ∧ (i : ℤ) < l.list.length) := by
      rw [l.repr.length]
      omega
    have hrun : l.list.delete i = .ok (false, l.list) := by
      rw [CList.delete, if_neg hcond]
      rfl
    refine ⟨l.list, by rw [hrun]; rfl, ?_, rfl, ?_, fun a => ?_⟩
    · rw [List.eraseIdx_of_length_le (Nat.le_of_not_lt hi)]
      exact l.repr
    · rw [if_neg]
      rintro ⟨rfl, hne⟩
      exact hi (List.length_pos_iff.mpr hne)
    · rw [List.getElem?_eq_none (Nat.le_of_not_lt hi), if_neg (by simp)]

/-- `List_delete`. -/
def delete (l : Linked α size) (i : ℕ) : Linked α size where
  list := settle l.list (l.list.delete i)
  ids := l.ids.eraseIdx i
  repr := by
    obtain ⟨l', hrun, hrepr, -⟩ := l.delete_cases i
    rw [hrun]
    exact hrepr
  sized := by
    obtain ⟨l', hrun, -, -, -, hcontent⟩ := l.delete_cases i
    intro a d n h
    rw [hrun, hcontent] at h
    split at h
    · cases h
    · exact l.sized a d n h

/-- `List_rewind`. -/
def rewind (l : Linked α size) : Linked α size where
  list := l.list.rewind.2
  ids := l.ids
  repr := by
    rw [CList.rewind_spec l.repr]
    exact l.repr.setCurrent _
  sized := by
    rw [CList.rewind_spec l.repr]
    exact l.sized

/-- The same list with the cursor elsewhere. -/
def setCurrent (l : Linked α size) (c : Option Addr) : Linked α size :=
  { l with list := { l.list with current := c }, repr := l.repr.setCurrent c }

/-- `List_next`. -/
def next (l : Linked α size) : Except Fault (Option Addr × Linked α size) :=
  l.list.next.map fun r => (r.1, l.setCurrent r.2.current)

/-- Write to the data of an item. -/
def modify (l : Linked α size) (a : Addr) (f : α → α) : Linked α size where
  list := settle l.list ((l.list.modifyData a f).map fun l' => (true, l'))
  ids := l.ids
  repr := by
    by_cases ha : a ∈ l.ids
    · obtain ⟨l', hrun, hrepr, -⟩ := CList.modifyData_spec l.repr ha f
      rw [hrun]
      exact hrepr
    · simp only [CList.modifyData, CList.modify, l.repr.heap_eq_none ha]
      exact l.repr
  sized := by
    by_cases ha : a ∈ l.ids
    · obtain ⟨l', hrun, -, -, -, hcontent⟩ := CList.modifyData_spec l.repr ha f
      intro b d n h
      rw [hrun] at h
      change l'.content b = _ at h
      rw [hcontent] at h
      split at h
      · obtain ⟨⟨d', n'⟩, hc, heq⟩ := Option.map_eq_some_iff.mp h
        cases heq
        exact l.sized b d' _ hc
      · exact l.sized b d n h
    · simp only [CList.modifyData, CList.modify, l.repr.heap_eq_none ha]
      exact l.sized

/-- The index of the first item that is found. -/
def search (l : Linked α size) (found : α → Bool) : Option ℕ :=
  l.ids.findIdx? fun a => (l.data a).any found

variable (l : Linked α size)

/-- `List_search` for items of the right size. -/
theorem list_search (found : α → Bool) :
    l.list.search size found = .ok (CList.foundAt (l.search found)) := by
  have hmatch : ∀ a, l.list.matching size found a = (l.data a).any found := by
    intro a
    cases hc : l.list.content a with
    | none => simp [CList.matching, data, hc]
    | some c =>
      obtain ⟨d, n⟩ := c
      simp [CList.matching, data, hc, l.sized a d n hc]
  rw [CList.search_spec l.repr, search, funext hmatch]

/-- `List_item`. -/
theorem list_item {i : ℕ} (hi : i < l.ids.length) : l.list.item i = .ok l.ids[i]? :=
  CList.item_spec l.repr hi

theorem mem_ids_iff {a : Addr} : a ∈ l.ids ↔ ∃ d, l.data a = some d := by
  rw [← l.repr.live, Option.isSome_iff_exists]
  simp [data, CList.content]

theorem fresh_not_mem : l.list.fresh ∉ l.ids := l.repr.fresh_not_mem

/-! ### Appending -/

@[simp] theorem ids_append (value : α) : (l.append value).ids = l.ids ++ [l.list.fresh] := rfl

theorem append_facts (value : α) :
    (l.append value).list.current =
        (if l.ids = [] then some l.list.fresh else l.list.current) ∧
      (l.append value).list.fresh = l.list.fresh + 1 ∧
      ∀ a, (l.append value).data a = if a = l.list.fresh then some value else l.data a := by
  obtain ⟨l', hrun, -, hcurrent, hfresh, hcontent⟩ := CList.append_spec l.repr value size
  have hlist : (l.append value).list = l' := by
    show settle l.list (l.list.append value size true) = l'
    rw [hrun]
    rfl
  refine ⟨by rw [hlist, hcurrent], by rw [hlist, hfresh], fun a => ?_⟩
  rw [data, hlist, hcontent]
  split <;> rfl

@[simp] theorem current_append (value : α) : (l.append value).list.current =
    if l.ids = [] then some l.list.fresh else l.list.current := (l.append_facts value).1

@[simp] theorem fresh_append (value : α) :
    (l.append value).list.fresh = l.list.fresh + 1 := (l.append_facts value).2.1

@[simp] theorem data_append (value : α) (a : Addr) :
    (l.append value).data a = if a = l.list.fresh then some value else l.data a :=
  (l.append_facts value).2.2 a

/-! ### Deleting -/

@[simp] theorem ids_delete (i : ℕ) : (l.delete i).ids = l.ids.eraseIdx i := rfl

theorem delete_facts (i : ℕ) :
    (l.delete i).list.current =
        (if i = 0 ∧ l.ids ≠ [] then l.ids[1]? else l.list.current) ∧
      (l.delete i).list.fresh = l.list.fresh ∧
      ∀ a, (l.delete i).data a = if l.ids[i]? = some a then none else l.data a := by
  obtain ⟨l', hlist, -, hfresh, hcurrent, hcontent⟩ := l.delete_cases i
  change (l.delete i).list = l' at hlist
  refine ⟨by rw [hlist, hcurrent], by rw [hlist, hfresh], fun a => ?_⟩
  rw [data, hlist, hcontent]
  split <;> rfl

@[simp] theorem current_delete (i : ℕ) : (l.delete i).list.current =
    if i = 0 ∧ l.ids ≠ [] then l.ids[1]? else l.list.current := (l.delete_facts i).1

@[simp] theorem fresh_delete (i : ℕ) : (l.delete i).list.fresh = l.list.fresh :=
  (l.delete_facts i).2.1

@[simp] theorem data_delete (i : ℕ) (a : Addr) :
    (l.delete i).data a = if l.ids[i]? = some a then none else l.data a :=
  (l.delete_facts i).2.2 a

/-! ### Moving the cursor -/

@[simp] theorem ids_rewind : l.rewind.ids = l.ids := rfl

@[simp] theorem fresh_rewind : l.rewind.list.fresh = l.list.fresh := by
  show l.list.rewind.2.fresh = _
  rw [CList.rewind_spec l.repr]

@[simp] theorem current_rewind :
    l.rewind.list.current = if l.ids = [] then l.list.current else l.ids.head? := by
  show l.list.rewind.2.current = _
  rw [CList.rewind_spec l.repr]

@[simp] theorem data_rewind (a : Addr) : l.rewind.data a = l.data a := by
  show (l.list.rewind.2.content a).map Prod.fst = _
  rw [CList.rewind_spec l.repr]
  rfl

@[simp] theorem ids_setCurrent (c : Option Addr) : (l.setCurrent c).ids = l.ids := rfl

@[simp] theorem fresh_setCurrent (c : Option Addr) :
    (l.setCurrent c).list.fresh = l.list.fresh := rfl

@[simp] theorem current_setCurrent (c : Option Addr) : (l.setCurrent c).list.current = c := rfl

@[simp] theorem data_setCurrent (c : Option Addr) (a : Addr) :
    (l.setCurrent c).data a = l.data a := rfl

/-- The two ways `List_next` succeeds. -/
theorem next_cases {r : Option Addr × Linked α size} (h : l.next = .ok r) :
    (l.list.current = none ∧ r = (none, l.setCurrent none)) ∨
      ∃ l₁ x l₂, l.ids = l₁ ++ x :: l₂ ∧ l.list.current = some x ∧
        r = (some x, l.setCurrent l₂.head?) := by
  cases hc : l.list.current with
  | none =>
    rw [next, CList.next_none hc] at h
    cases h
    exact Or.inl ⟨rfl, by rw [← hc]⟩
  | some x =>
    by_cases hx : x ∈ l.ids
    · obtain ⟨l₁, l₂, hids⟩ := List.append_of_mem hx
      have hnext := CList.next_spec (hids ▸ l.repr) hc
      rw [next, hnext] at h
      cases h
      exact Or.inr ⟨l₁, x, l₂, hids, rfl, rfl⟩
    · rw [next, CList.next_dangling l.repr hc hx] at h
      cases h

/-! ### Writing to an item -/

@[simp] theorem ids_modify (a : Addr) (f : α → α) : (l.modify a f).ids = l.ids := rfl

theorem modify_facts (x : Addr) (f : α → α) :
    (l.modify x f).list.current = l.list.current ∧ (l.modify x f).list.fresh = l.list.fresh ∧
      ∀ a, (l.modify x f).data a = if a = x then (l.data a).map f else l.data a := by
  by_cases hx : x ∈ l.ids
  · obtain ⟨l', hrun, -, hcurrent, hfresh, hcontent⟩ := CList.modifyData_spec l.repr hx f
    have hlist : (l.modify x f).list = l' := by
      show settle l.list ((l.list.modifyData x f).map _) = l'
      rw [hrun]
      rfl
    refine ⟨by rw [hlist, hcurrent], by rw [hlist, hfresh], fun a => ?_⟩
    rw [data, hlist, hcontent, data]
    split
    · simp [Function.comp_def]
    · rfl
  · have hlist : (l.modify x f).list = l.list := by
      show settle l.list ((l.list.modifyData x f).map _) = _
      simp only [CList.modifyData, CList.modify, l.repr.heap_eq_none hx]
      rfl
    have hnone : l.data x = none := by
      simp [data, CList.content, l.repr.heap_eq_none hx]
    refine ⟨by rw [hlist], by rw [hlist], fun a => ?_⟩
    rw [data, hlist]
    split
    · next ha => rw [ha, hnone]; exact hnone
    · rfl

@[simp] theorem current_modify (x : Addr) (f : α → α) :
    (l.modify x f).list.current = l.list.current := (l.modify_facts x f).1

@[simp] theorem fresh_modify (x : Addr) (f : α → α) :
    (l.modify x f).list.fresh = l.list.fresh := (l.modify_facts x f).2.1

@[simp] theorem data_modify (x : Addr) (f : α → α) (a : Addr) :
    (l.modify x f).data a = if a = x then (l.data a).map f else l.data a :=
  (l.modify_facts x f).2.2 a

end Linked
end C2Hat
