import C2Hat.ListRuns

/-!
# Lists whose allocations may fail

`List_insert` of `src/lib/list/list.c` does not look at what `ListNode_new` returns.  When the
list is empty, a node that could not be allocated is stored as its first one and counted all
the same; the length field is then greater than the number of nodes for as long as the list is
used.  When the list is not empty, the null pointer is written to.

## Main definitions

* `CList.withLength` — a list with another number in its length field.
* `CList.Counted` — the nodes are linked in order, and at least they are counted.
* `BuildCall`, `BuildCall.step` — all calls, with allocations that succeed or fail.

## Main results

* `CList.insert_withLength`, `CList.delete_withLength` — the length field plays no part in
  what is done at a position.
* `CList.Counted.step` — **the nodes stay in order** whatever is called.
-/

namespace C2Hat

open Clib Runs

variable {α : Type}

namespace CList

variable {l l' : CList α} {ids : List Addr} {n : ℕ} {pos : ℤ}

/-- The list with another number in its length field. -/
def withLength (l : CList α) (n : ℕ) : CList α := { l with length := n }

theorem deref_withLength (p : Option Addr) : (l.withLength n).deref p = l.deref p := by
  cases p <;> rfl

theorem modify_withLength (p : Option Addr) (f : ListNode α → ListNode α) :
    (l.withLength n).modify p f = (fun l' => l'.withLength n) <$> l.modify p f := by
  cases p with
  | none => rfl
  | some a =>
    simp only [modify, withLength]
    cases l.heap a <;> rfl

/-- Inserting at a position that both numbers allow. -/
theorem insert_withLength (value : α) (size : ℕ) (alloc : Bool) (hpos : 0 ≤ pos ∧ pos ≤ n)
    (hle : pos ≤ l.length) :
    (l.withLength n).insert value size pos alloc =
      (fun r => (r.1, r.2.withLength (n + 1))) <$> l.insert value size pos alloc := by
  have hpos' : 0 ≤ pos ∧ pos ≤ (l.withLength n).length := hpos
  have hle' : 0 ≤ pos ∧ pos ≤ l.length := ⟨hpos.1, hle⟩
  unfold insert
  rw [if_pos hpos', if_pos hle']
  have hnew : (l.withLength n).newNode value size alloc =
      ((l.newNode value size alloc).1, (l.newNode value size alloc).2.withLength n) := by
    cases alloc <;> rfl
  rw [hnew]
  obtain ⟨item, l₁⟩ := l.newNode value size alloc
  show (if l₁.first = none then _ else _) = _ <$> (if l₁.first = none then _ else _)
  by_cases hfirst : l₁.first = none
  · rw [if_pos hfirst, if_pos hfirst]
    rfl
  · rw [if_neg hfirst, if_neg hfirst]
    have hsucc : (l₁.withLength n).succ = l₁.succ := rfl
    have hf : (l₁.withLength n).first = l₁.first := rfl
    rw [map_bind, hsucc, hf]
    congr 1
    funext cursor
    by_cases hcursor : cursor = none
    · simp only [if_pos hcursor, modify_withLength, map_bind, bind_map_left]
      rfl
    · simp only [if_neg hcursor, modify_withLength, map_bind, bind_map_left, deref_withLength]
      congr 1
      funext l₂
      congr 1
      funext node
      congr 1
      funext l₃
      by_cases hprev : node.prev = none
      · simp only [hprev, ne_eq, not_true_eq_false, if_false]
        have hfront : ({ l₃.withLength n with first := item } : CList α) =
            CList.withLength { l₃ with first := item } n := rfl
        show (CList.modify { l₃.withLength n with first := item } cursor _ >>= _) =
          _ <$> (CList.modify { l₃ with first := item } cursor _ >>= _)
        rw [hfront, modify_withLength, bind_map_left, map_bind]
        rfl
      · simp only [ne_eq, hprev, not_false_eq_true, if_true, map_bind]
        rfl

/-- Deleting at a position that both numbers allow. -/
theorem delete_withLength (hpos : 0 ≤ pos ∧ pos < n) (hlt : pos < l.length)
    (hempty : l.empty = false) :
    (l.withLength n).delete pos =
      (fun r => (r.1, r.2.withLength (n - 1))) <$> l.delete pos := by
  have hfirst : (l.first == none) = false := (Bool.or_eq_false_iff.mp hempty).2
  have hempty' : (l.withLength n).empty = false := by
    refine Bool.or_eq_false_iff.mpr ⟨?_, hfirst⟩
    rw [beq_eq_false_iff_ne]
    change n ≠ 0
    omega
  unfold delete
  rw [if_pos ⟨hempty', hpos⟩, if_pos ⟨hempty, hpos.1, hlt⟩]
  have hsucc : (l.withLength n).succ = l.succ := rfl
  have hf : (l.withLength n).first = l.first := rfl
  rw [map_bind, hsucc, hf]
  congr 1
  funext p
  simp only [deref_withLength, map_bind]
  congr 1
  funext node
  by_cases hprev : node.prev = none
  · simp only [if_pos hprev]
    cases hd : l.deref l.first with
    | error e => rfl
    | ok first =>
      by_cases hnext : node.next = none
      · simp only [if_pos hnext]
        rfl
      · simp only [if_neg hnext]
        have hfront : ({ l.withLength n with current := first.next, first := first.next } :
            CList α) =
            CList.withLength { l with current := first.next, first := first.next } n := rfl
        show (CList.modify { l.withLength n with current := first.next, first := first.next } _ _
            >>= _) =
          _ <$> (CList.modify { l with current := first.next, first := first.next } _ _ >>= _)
        rw [hfront, modify_withLength, bind_map_left, map_bind]
        rfl
  · simp only [if_neg hprev, modify_withLength, bind_map_left]
    rw [map_bind]
    congr 1
    funext l'
    by_cases hnext : node.next = none
    · simp only [if_pos hnext]
      rfl
    · simp only [if_neg hnext]
      rw [map_bind]
      rfl

/-! ### Lists that count too many nodes -/

/-- The nodes at `ids` are linked in this order, and the length field may also count
nodes that could not be allocated. -/
structure Counted (l : CList α) (ids : List Addr) : Prop where
  repr : Repr (l.withLength ids.length) ids
  le : ids.length ≤ l.length

theorem Repr.counted (h : Repr l ids) : Counted l ids where
  repr := by
    rw [← h.length]
    exact h
  le := h.length.ge

theorem Counted.empty_eq (h : Counted l ids) : l.empty = ids.isEmpty := by
  have hfirst : l.first = ids.head? := h.repr.first
  cases ids with
  | nil => simp [empty, hfirst]
  | cons a t =>
    have hle := h.le
    rw [List.length_cons] at hle
    have hne : l.length ≠ 0 := by omega
    simp [empty, hfirst, hne]

theorem Counted.of_sameShape (h : Counted l ids) (hsame : SameShape l l') : Counted l' ids where
  repr := h.repr.of_sameShape ⟨hsame.first, hsame.last, hsame.current, rfl, hsame.fresh, hsame.succ,
    hsame.pred⟩
  le := hsame.length ▸ h.le

theorem Counted.setCurrent (h : Counted l ids) (c : Option Addr) :
    Counted { l with current := c } ids := ⟨h.repr.setCurrent c, h.le⟩

/-- Only positions in front of the last node, or right behind it, are reached. -/
theorem Counted.le_of_walk (h : Counted l ids) {p : Option Addr} {k : ℕ}
    (hwalk : follow l.succ k l.first = .ok p) : k ≤ ids.length := by
  by_contra hlt
  have hnull := follow_beyond h.repr.next (not_le.mp hlt)
  have hfirst : l.first = ids.head? := h.repr.first
  rw [← hfirst] at hnull
  cases hnull.symm.trans hwalk

/-- What is represented by a list whose length field counts more. -/
theorem Repr.counted_withLength (h : Repr l ids) (hn : ids.length ≤ n) :
    Counted (l.withLength n) ids where
  repr := by
    have hl : (l.withLength n).withLength ids.length = l := by
      rw [← h.length]
      rfl
    rw [hl]
    exact h
  le := hn

/-- The first insertion: the position is not looked at. -/
theorem insert_of_first_none (hfirst : l.first = none) (value : α) (size : ℕ) (alloc : Bool)
    (hpos : 0 ≤ pos ∧ pos ≤ l.length) :
    l.insert value size pos alloc =
      (fun r => (r.1, r.2.withLength (l.length + 1))) <$>
        (l.withLength 0).insert value size 0 alloc := by
  have hzero : (0 : ℤ) ≤ 0 ∧ (0 : ℤ) ≤ (l.withLength 0).length :=
    ⟨Int.le_refl 0, Int.natCast_nonneg _⟩
  unfold insert
  rw [if_pos hpos, if_pos hzero]
  cases alloc <;> simp [newNode, withLength, hfirst]

/-- The item that could not be allocated is stored as the first one. -/
theorem insert_failing_of_first_none (hfirst : l.first = none) (value : α) (size : ℕ) :
    (l.withLength 0).insert value size 0 false =
      .ok (true, { l with first := none, last := none, current := none, length := 1 }) := by
  have hzero : (0 : ℤ) ≤ 0 ∧ (0 : ℤ) ≤ (l.withLength 0).length :=
    ⟨Int.le_refl 0, Int.natCast_nonneg _⟩
  rw [insert, if_pos hzero]
  simp [newNode, withLength, hfirst]
  rfl

/-- In a list that is not empty it is written to. -/
theorem insert_failing_ne_ok (hfirst : l.first ≠ none) (value : α) (size : ℕ)
    (hpos : 0 ≤ pos ∧ pos ≤ l.length) (r : Bool × CList α) :
    l.insert value size pos false ≠ .ok r := by
  intro hrun
  rw [insert, if_pos hpos] at hrun
  change (if l.first = none then _ else _) = _ at hrun
  rw [if_neg hfirst] at hrun
  obtain ⟨cursor, -, hrun⟩ := bind_eq_ok.mp hrun
  split at hrun <;> cases hrun

/-- A node is put in front of another one, or behind the last one. -/
theorem Counted.le_of_insert (h : Counted l ids) (hfirst : l.first ≠ none) {value : α} {size k : ℕ}
    (hpos : (0 : ℤ) ≤ k ∧ (k : ℤ) ≤ l.length) {r : Bool × CList α}
    (hrun : l.insert value size k true = .ok r) : k ≤ ids.length := by
  rw [CList.insert, if_pos hpos, Int.toNat_natCast] at hrun
  change (if l.first = none then _ else _) = _ at hrun
  rw [if_neg hfirst] at hrun
  obtain ⟨cursor, hwalk, -⟩ := bind_eq_ok.mp hrun
  -- the walk does not meet the new node
  have hlinks : Links (l.newNode value size true).2.succ ids none := by
    refine links_congr ?_ h.repr.next
    intro a ha
    have hne : a ≠ l.fresh := fun heq => h.repr.fresh_not_mem (heq ▸ ha)
    simp [succ, newNode, withLength, hne]
  have hids : l.first = ids.head? := h.repr.first
  change follow _ k l.first = _ at hwalk
  rw [hids] at hwalk
  by_contra hlt
  cases (follow_beyond hlinks (not_le.mp hlt)).symm.trans hwalk

/-- **Inserting**, when it returns. -/
theorem Counted.insert (h : Counted l ids) {value : α} {size : ℕ} {alloc r : Bool}
    (hrun : l.insert value size pos alloc = .ok (r, l')) : ∃ ids', Counted l' ids' := by
  by_cases hpos : 0 ≤ pos ∧ pos ≤ l.length
  swap
  · rw [insert_of_not_le value size alloc hpos] at hrun
    cases hrun
    exact ⟨ids, h⟩
  have hrepr := h.repr
  have hfirst : l.first = ids.head? := hrepr.first
  cases ids with
  | nil =>
    rw [insert_of_first_none hfirst value size alloc hpos] at hrun
    cases alloc with
    | false =>
      rw [insert_failing_of_first_none hfirst] at hrun
      cases hrun
      have hnone : Repr { l with first := none, last := none, current := none, length := 0 } [] :=
        ⟨hrepr.nodup, rfl, rfl, rfl, trivial, trivial, hrepr.live, hrepr.bound⟩
      exact ⟨[], hnone.counted_withLength (Nat.zero_le _)⟩
    | true =>
      have hnil : Repr (l.withLength 0) ([] ++ []) := hrepr
      obtain ⟨l₀, hrun₀, hrepr₀, -⟩ := insert_spec hnil value size
      change (l.withLength 0).insert value size 0 true = _ at hrun₀
      rw [hrun₀] at hrun
      cases hrun
      refine ⟨_, hrepr₀.counted_withLength ?_⟩
      simp
  | cons a t =>
    have hne : l.first ≠ none := by simp [hfirst]
    cases alloc with
    | false => exact absurd hrun (insert_failing_ne_ok hne value size hpos _)
    | true =>
      obtain ⟨k, rfl⟩ := Int.eq_ofNat_of_zero_le hpos.1
      have hk := h.le_of_insert hne hpos hrun
      rw [← List.take_append_drop k (a :: t)] at hrepr
      obtain ⟨l₀, hrun₀, hrepr₀, -⟩ := insert_spec hrepr value size
      rw [List.length_take_of_le hk, List.take_append_drop] at hrun₀
      have hle : (k : ℤ) ≤ (l.withLength (a :: t).length).length := Int.ofNat_le.mpr hk
      have hl : l.insert value size k true = _ :=
        insert_withLength (l := l.withLength (a :: t).length) value size true hpos hle
      rw [hrun₀] at hl
      cases hl.symm.trans hrun
      refine ⟨_, hrepr₀.counted_withLength ?_⟩
      have hlength := h.le
      simp only [List.length_append, List.length_cons, List.length_take, List.length_drop]
        at hlength hk ⊢
      omega

/-- **Deleting**, when it returns. -/
theorem Counted.delete (h : Counted l ids) {r : Bool} (hrun : l.delete pos = .ok (r, l')) :
    ∃ ids', Counted l' ids' := by
  by_cases hcond : l.empty = false ∧ 0 ≤ pos ∧ pos < l.length
  swap
  · rw [CList.delete, if_neg hcond] at hrun
    cases hrun
    exact ⟨ids, h⟩
  obtain ⟨hempty, hpos⟩ := hcond
  obtain ⟨k, rfl⟩ := Int.eq_ofNat_of_zero_le hpos.1
  have hrepr := h.repr
  have hk : k < ids.length := by
    rw [CList.delete, if_pos ⟨hempty, hpos⟩, Int.toNat_natCast] at hrun
    obtain ⟨p, hwalk, hrun⟩ := bind_eq_ok.mp hrun
    obtain ⟨node, hnode, -⟩ := bind_eq_ok.mp hrun
    refine lt_of_le_of_ne (h.le_of_walk hwalk) ?_
    rintro rfl
    have hfollow := follow_eq hrepr.next le_rfl
    rw [← hrepr.first, List.getElem?_eq_none le_rfl] at hfollow
    cases hwalk.symm.trans hfollow
    cases hnode
  obtain ⟨l₁, x, l₂, rfl, rfl⟩ : ∃ l₁ x l₂, ids = l₁ ++ x :: l₂ ∧ l₁.length = k :=
    ⟨ids.take k, ids[k], ids.drop (k + 1), by simp, List.length_take_of_le hk.le⟩
  obtain ⟨l₀, hrun₀, hrepr₀, -⟩ := delete_spec hrepr
  have hlt : (l₁.length : ℤ) < (l.withLength (l₁ ++ x :: l₂).length).length := by
    change (l₁.length : ℤ) < (l₁ ++ x :: l₂).length
    exact_mod_cast hk
  have hempty₀ : (l.withLength (l₁ ++ x :: l₂).length).empty = false := by
    rw [hrepr.empty_eq]
    simp
  have hl : l.delete l₁.length = _ :=
    delete_withLength (l := l.withLength (l₁ ++ x :: l₂).length) hpos hlt hempty₀
  rw [hrun₀] at hl
  cases hl.symm.trans hrun
  refine ⟨_, hrepr₀.counted_withLength ?_⟩
  have hle := h.le
  simp only [List.length_append, List.length_cons] at hle ⊢
  omega

end CList

/-! ### Calls -/

/-- A call on a list. -/
inductive BuildCall (α : Type)
  /-- Its allocations succeed. -/
  | call (call : ListCall α)
  /-- Its allocations fail; `null` stands for the data behind the null pointer. -/
  | failing (op : ListOp α) (null : α)

/-- The operation on a list, its allocations failing. -/
def ListOp.runFailing (null : α) (l : CList α) : ListOp α → Except Fault (Bool × CList α)
  | .append value size => l.append value size false
  | .prepend value size => l.prepend value size false
  | .insert value size pos => l.insert value size pos false
  | .delete pos => l.delete pos
  | .update value size pos => l.update value size pos false null

/-- The list after a call, when it returns. -/
def BuildCall.step (l : CList α) : BuildCall α → Option (CList α)
  | .call c => c.step l
  | .failing op null => (op.runFailing null l).toOption.map Prod.snd

open CList

variable {l l' : CList α} {ids : List Addr}

theorem CList.Counted.update (h : Counted l ids) {value null : α} {size : ℕ} {pos : ℤ}
    {alloc r : Bool} (hrun : l.update value size pos alloc null = .ok (r, l')) :
    Counted l' ids := by
  unfold CList.update at hrun
  split at hrun
  · obtain ⟨p, -, hrun⟩ := bind_eq_ok.mp hrun
    split at hrun
    · obtain ⟨l₁, hmodify, hrun⟩ := bind_eq_ok.mp hrun
      cases hrun
      refine h.of_sameShape (sameShape_of_modify ?_ ?_ hmodify) <;> exact fun _ => rfl
    · obtain ⟨l₁, hmodify, hrun⟩ := bind_eq_ok.mp hrun
      cases hrun
      refine h.of_sameShape (sameShape_of_modify ?_ ?_ hmodify) <;> exact fun _ => rfl
  · cases hrun
    exact h

theorem CList.Counted.rewind (h : Counted l ids) : Counted l.rewind.2 ids := by
  unfold CList.rewind
  split
  · exact h.setCurrent _
  · exact h

/-- **One call** with allocations that succeed. -/
theorem CList.Counted.call (h : Counted l ids) {call : ListCall α} (hstep : call.step l = some l') :
    ∃ ids', Counted l' ids' := by
  cases call with
  | change op =>
    obtain ⟨r, hrun⟩ := toOption_map_eq_some hstep
    cases op with
    | append value size =>
      change l.insert value size l.length true = .ok (r, l') at hrun
      exact h.insert hrun
    | prepend value size =>
      change l.insert value size 0 true = .ok (r, l') at hrun
      exact h.insert hrun
    | insert value size pos =>
      change l.insert value size pos true = .ok (r, l') at hrun
      exact h.insert hrun
    | delete pos => exact h.delete hrun
    | update value size pos => exact ⟨ids, h.update hrun⟩
  | next =>
    obtain ⟨r, hrun⟩ := toOption_map_eq_some hstep
    unfold CList.next at hrun
    split at hrun
    · cases hrun
      exact ⟨ids, h⟩
    · obtain ⟨n, -, hrun⟩ := bind_eq_ok.mp hrun
      cases hrun
      exact ⟨ids, h.setCurrent _⟩
  | prev =>
    obtain ⟨r, hrun⟩ := toOption_map_eq_some hstep
    unfold CList.prev at hrun
    split at hrun
    · cases hrun
      exact ⟨ids, h⟩
    · obtain ⟨n, -, hrun⟩ := bind_eq_ok.mp hrun
      cases hrun
      exact ⟨ids, h.setCurrent _⟩
  | rewind =>
    cases hstep
    exact ⟨ids, h.rewind⟩
  | sort less rounds =>
    exact ⟨ids, h.of_sameShape (sameShape_sort (toOption_bind_eq_some hstep))⟩

/-- **One call.**  The cursor plays no part in it, even when it has been left behind. -/
theorem CList.Counted.step (h : Counted l ids) {call : BuildCall α}
    (hstep : call.step l = some l') : ∃ ids', Counted l' ids' := by
  cases call with
  | call call => exact h.call hstep
  | failing op null =>
    obtain ⟨r, hrun⟩ := toOption_map_eq_some hstep
    cases op with
    | append value size =>
      change l.insert value size l.length false = .ok (r, l') at hrun
      exact h.insert hrun
    | prepend value size =>
      change l.insert value size 0 false = .ok (r, l') at hrun
      exact h.insert hrun
    | insert value size pos =>
      change l.insert value size pos false = .ok (r, l') at hrun
      exact h.insert hrun
    | delete pos => exact h.delete hrun
    | update value size pos => exact ⟨ids, h.update hrun⟩

end C2Hat
