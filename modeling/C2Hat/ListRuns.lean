import C2Hat.ListSort
import C2Hat.Lib.Run

/-!
# Runs of list operations

What sequences of calls of `src/lib/list/list.c` do to a list, from `List_new` on.
The operations that change a list are those of a sequence of items, each with its size:
insert-at, erase-at and set-at.  The cursor is another matter, since `List_delete` pays
attention to it only when the first node goes.

## Main definitions

* `ListOp`, `ListOp.run`, `ListOp.spec` — the operations that change a list, as they are
  and as operations on sequences.
* `IsSequence` — a list that holds a sequence.
* `ListCall`, `ListCall.step`, `KeepsCursor` — all calls, and those that do not delete
  the node under the cursor.

## Main results

* `list_is_sequence` — **a list is a sequence**, after any operations.
* `cursor_valid` — **the cursor is in the list** as long as the node under it is not
  deleted, unless it is the first one.
-/

namespace C2Hat

open Clib Runs

variable {α : Type}

/-! ### Operations -/

/-- The operations that change a list. -/
inductive ListOp (α : Type)
  | append (value : α) (size : ℕ)
  | prepend (value : α) (size : ℕ)
  | insert (value : α) (size : ℕ) (pos : ℤ)
  | delete (pos : ℤ)
  | update (value : α) (size : ℕ) (pos : ℤ)

namespace ListOp

/-- The operation on a list, its allocations succeeding. -/
def run (l : CList α) : ListOp α → Except Fault (Bool × CList α)
  | .append value size => l.append value size true
  | .prepend value size => l.prepend value size true
  | .insert value size pos => l.insert value size pos true
  | .delete pos => l.delete pos
  | .update value size pos => l.update value size pos true value

/-- The operation on a sequence, `none` for a position outside of it. -/
def spec (xs : List (α × ℕ)) : ListOp α → Option (List (α × ℕ))
  | .append value size => some (xs ++ [(value, size)])
  | .prepend value size => some ((value, size) :: xs)
  | .insert value size pos =>
    if 0 ≤ pos ∧ pos ≤ xs.length then some (xs.insertIdx pos.toNat (value, size)) else none
  | .delete pos => if 0 ≤ pos ∧ pos < xs.length then some (xs.eraseIdx pos.toNat) else none
  | .update value size pos =>
    if 0 ≤ pos ∧ pos < xs.length then some (xs.set pos.toNat (value, size)) else none

/-- Operations one after the other, with their results. -/
def runAll (l : CList α) : List (ListOp α) → Except Fault (List Bool × CList α)
  | [] => .ok ([], l)
  | op :: ops => do
    let (result, l) ← op.run l
    let (results, l) ← runAll l ops
    return (result :: results, l)

/-- The same on sequences: an operation outside of the sequence fails and changes
nothing. -/
def specAll (xs : List (α × ℕ)) : List (ListOp α) → List Bool × List (α × ℕ)
  | [] => ([], xs)
  | op :: ops =>
    ((op.spec xs).isSome :: (specAll ((op.spec xs).getD xs) ops).1,
      (specAll ((op.spec xs).getD xs) ops).2)

end ListOp

/-! ### Representation -/

/-- The nodes of the list hold the items of the sequence. -/
def Represents (l : CList α) (xs : List (α × ℕ)) : Prop :=
  ∃ ids, l.Repr ids ∧ ids.map l.content = xs.map some

variable {l : CList α} {xs : List (α × ℕ)}

theorem represents_new : Represents (CList.new : CList α) [] := ⟨[], CList.repr_new, rfl⟩

theorem Represents.length (h : Represents l xs) : l.length = xs.length := by
  obtain ⟨ids, hrepr, hmap⟩ := h
  have hlen := congrArg List.length hmap
  rw [List.length_map, List.length_map] at hlen
  rw [hrepr.length, hlen]

/-- A list is cut where its sequence is. -/
theorem Represents.split (h : Represents l xs) {k : ℕ} (hk : k ≤ xs.length) :
    ∃ l₁ l₂ xs₁ xs₂, l.Repr (l₁ ++ l₂) ∧ xs = xs₁ ++ xs₂ ∧ l₁.length = k ∧ xs₁.length = k ∧
      l₁.map l.content = xs₁.map some ∧ l₂.map l.content = xs₂.map some := by
  obtain ⟨ids, hrepr, hmap⟩ := h
  rw [← List.take_append_drop k xs, List.map_append] at hmap
  obtain ⟨l₁, l₂, rfl, h₁, h₂⟩ := List.map_eq_append_iff.mp hmap
  have hlen := congrArg List.length h₁
  rw [List.length_map, List.length_map, List.length_take_of_le hk] at hlen
  exact ⟨l₁, l₂, xs.take k, xs.drop k, hrepr, (List.take_append_drop k xs).symm, hlen,
    List.length_take_of_le hk, h₁, h₂⟩

/-- The item at a position, with what is in front of it and behind it. -/
theorem Represents.split_at (h : Represents l xs) {k : ℕ} (hk : k < xs.length) :
    ∃ l₁ a l₂ xs₁ x xs₂, l.Repr (l₁ ++ a :: l₂) ∧ xs = xs₁ ++ x :: xs₂ ∧ l₁.length = k ∧
      xs₁.length = k ∧ l₁.map l.content = xs₁.map some ∧ l.content a = some x ∧
      l₂.map l.content = xs₂.map some := by
  obtain ⟨l₁, l₂, xs₁, xs₂, hrepr, rfl, hl₁, hxs₁, h₁, h₂⟩ := h.split hk.le
  cases xs₂ with
  | nil =>
    rw [List.append_nil] at hk
    omega
  | cons x xs₂ =>
    obtain ⟨a, l₂, rfl, ha, h₂⟩ := List.map_eq_cons_iff.mp h₂
    exact ⟨l₁, a, l₂, xs₁, x, xs₂, hrepr, rfl, hl₁, hxs₁, h₁, ha, h₂⟩

/-- Nodes that an operation leaves alone. -/
theorem map_content_congr {l l' : CList α} {ids : List Addr} {x : Addr} (hx : x ∉ ids)
    (hcontent : ∀ a, a ≠ x → l'.content a = l.content a) :
    ids.map l'.content = ids.map l.content :=
  List.map_congr_left fun a ha => hcontent a fun hax => hx (hax ▸ ha)

theorem insertIdx_length_append {β : Type} (xs₁ xs₂ : List β) (x : β) :
    (xs₁ ++ xs₂).insertIdx xs₁.length x = xs₁ ++ x :: xs₂ := by
  induction xs₁ with
  | nil => rfl
  | cons y xs₁ ih =>
    rw [List.cons_append, List.length_cons, List.insertIdx_succ_cons, ih, List.cons_append]

theorem represents_insert (h : Represents l xs) {k : ℕ} (hk : k ≤ xs.length) (value : α)
    (size : ℕ) : ∃ l', l.insert value size k true = .ok (true, l') ∧
      Represents l' (xs.insertIdx k (value, size)) := by
  obtain ⟨l₁, l₂, xs₁, xs₂, hrepr, rfl, rfl, hxs₁, h₁, h₂⟩ := h.split hk
  obtain ⟨l', hrun, hrepr', -, -, hcontent⟩ := CList.insert_spec hrepr value size
  have hfresh := hrepr.fresh_not_mem
  rw [List.mem_append, not_or] at hfresh
  have hkept : ∀ a, a ≠ l.fresh → l'.content a = l.content a := by
    intro a ha
    rw [hcontent, if_neg ha]
  refine ⟨l', hrun, _, hrepr', ?_⟩
  rw [← hxs₁, List.map_append, List.map_cons, map_content_congr hfresh.1 hkept,
    map_content_congr hfresh.2 hkept, h₁, h₂, hcontent, if_pos rfl]
  rw [insertIdx_length_append, List.map_append, List.map_cons]

theorem represents_delete (h : Represents l xs) {k : ℕ} (hk : k < xs.length) :
    ∃ l', l.delete k = .ok (true, l') ∧ Represents l' (xs.eraseIdx k) := by
  obtain ⟨l₁, a, l₂, xs₁, x, xs₂, hrepr, rfl, rfl, hxs₁, h₁, -, h₂⟩ := h.split_at hk
  obtain ⟨l', hrun, hrepr', -, -, hcontent⟩ := CList.delete_spec hrepr
  have hnodup := hrepr.nodup
  rw [List.nodup_middle, List.nodup_cons, List.mem_append, not_or] at hnodup
  have hkept : ∀ b, b ≠ a → l'.content b = l.content b := by
    intro b hb
    rw [hcontent, if_neg hb]
  refine ⟨l', hrun, _, hrepr', ?_⟩
  rw [← hxs₁, List.map_append, map_content_congr hnodup.1.1 hkept,
    map_content_congr hnodup.1.2 hkept, h₁, h₂, ← List.map_append,
    List.eraseIdx_append_of_length_le le_rfl]
  simp

theorem represents_update (h : Represents l xs) {k : ℕ} (hk : k < xs.length) (value : α)
    (size : ℕ) (null : α) : ∃ l', l.update value size k true null = .ok (true, l') ∧
      Represents l' (xs.set k (value, size)) := by
  obtain ⟨l₁, a, l₂, xs₁, x, xs₂, hrepr, rfl, rfl, hxs₁, h₁, -, h₂⟩ := h.split_at hk
  obtain ⟨l', hrun, hsame, hcontent⟩ := CList.update_spec hrepr value size null
  have hnodup := hrepr.nodup
  rw [List.nodup_middle, List.nodup_cons, List.mem_append, not_or] at hnodup
  have hkept : ∀ b, b ≠ a → l'.content b = l.content b := by
    intro b hb
    rw [hcontent, if_neg hb]
  refine ⟨l', hrun, _, hrepr.of_sameShape hsame, ?_⟩
  rw [← hxs₁, List.map_append, List.map_cons, map_content_congr hnodup.1.1 hkept,
    map_content_congr hnodup.1.2 hkept, h₁, h₂, hcontent, if_pos rfl]
  simp

/-- **One operation**, on the list and on the sequence. -/
theorem ListOp.run_spec (h : Represents l xs) (op : ListOp α) :
    match op.spec xs with
    | none => op.run l = .ok (false, l)
    | some ys => ∃ l', op.run l = .ok (true, l') ∧ Represents l' ys := by
  have hlen := h.length
  cases op with
  | append value size =>
    have hins := represents_insert h le_rfl value size
    have hend := insertIdx_length_append xs [] (value, size)
    rw [List.append_nil] at hend
    rw [hend, ← hlen] at hins
    exact hins
  | prepend value size => exact represents_insert h (Nat.zero_le _) value size
  | insert value size pos =>
    rw [ListOp.spec]
    split_ifs with hpos
    · obtain ⟨k, rfl⟩ := Int.eq_ofNat_of_zero_le hpos.1
      exact represents_insert h (by omega) value size
    · exact CList.insert_of_not_le value size true (hlen ▸ hpos)
  | delete pos =>
    rw [ListOp.spec]
    split_ifs with hpos
    · obtain ⟨k, rfl⟩ := Int.eq_ofNat_of_zero_le hpos.1
      exact represents_delete h (by omega)
    · exact CList.delete_of_not_lt (hlen ▸ hpos)
  | update value size pos =>
    rw [ListOp.spec]
    split_ifs with hpos
    · obtain ⟨k, rfl⟩ := Int.eq_ofNat_of_zero_le hpos.1
      exact represents_update h (by omega) value size value
    · exact CList.update_of_not_lt value size true value (hlen ▸ hpos)

/-- **All operations.** -/
theorem ListOp.runAll_spec (h : Represents l xs) (ops : List (ListOp α)) :
    ∃ l', runAll l ops = .ok ((specAll xs ops).1, l') ∧ Represents l' (specAll xs ops).2 := by
  induction ops generalizing l xs with
  | nil => exact ⟨l, rfl, h⟩
  | cons op ops ih =>
    have hop := op.run_spec h
    cases hspec : op.spec xs with
    | none =>
      rw [hspec] at hop
      obtain ⟨l', hrun, hrep⟩ := ih h
      refine ⟨l', ?_, ?_⟩
      · simp [runAll, specAll, hspec, hop, hrun, bind, Except.bind, pure, Except.pure]
      · simpa [specAll, hspec] using hrep
    | some ys =>
      rw [hspec] at hop
      obtain ⟨l₁, hrun₁, hrep₁⟩ := hop
      obtain ⟨l', hrun, hrep⟩ := ih hrep₁
      refine ⟨l', ?_, ?_⟩
      · simp [runAll, specAll, hspec, hrun₁, hrun, bind, Except.bind, pure, Except.pure]
      · simpa [specAll, hspec] using hrep

/-! ### What a representation says -/

/-- The list holds the items of the sequence, and is asked for them. -/
structure IsSequence (l : CList α) (xs : List (α × ℕ)) : Prop where
  /-- Following `next` from `first` visits a node for each item, and ends at `last`. -/
  visits : ∃ ids : List Addr, ids.Nodup ∧ ids.length = l.length ∧
    (∀ i ≤ l.length, follow l.succ i l.first = .ok ids[i]?) ∧ l.last = ids.getLast? ∧
    ids.map l.content = xs.map some
  /-- `prev` is the inverse of `next`. -/
  inverse : ∀ a b, l.succ a = some (some b) ↔ l.pred b = some (some a)
  /-- The queries. -/
  item : ∀ pos : ℤ, (l.item pos).map (fun p => p.bind l.content) =
    .ok (if 0 ≤ pos ∧ pos < xs.length then xs[pos.toNat]? else none)
  first : l.getFirst.bind l.content = xs.head?
  last : l.getLast.bind l.content = xs.getLast?
  search : ∀ (needleSize : ℕ) (found : α → Bool), l.search needleSize found =
    .ok (CList.foundAt (xs.findIdx? fun x => x.2 == needleSize && found x.1))

/-- What an item of the sequence is for a predicate on the content of nodes. -/
def isNeedle (needleSize : ℕ) (found : α → Bool) : Option (α × ℕ) → Bool
  | none => false
  | some (data, size) => size == needleSize && found data

theorem matching_eq (l : CList α) (needleSize : ℕ) (found : α → Bool) :
    l.matching needleSize found = isNeedle needleSize found ∘ l.content := by
  funext a
  show l.matching needleSize found a = isNeedle needleSize found (l.content a)
  unfold CList.matching isNeedle
  cases l.content a <;> rfl

/-- The node and the item at the same place. -/
theorem getElem?_content {ids : List Addr} (hmap : ids.map l.content = xs.map some) (i : ℕ) :
    ids[i]?.bind l.content = xs[i]? := by
  have hget := congrArg (fun ys => ys[i]?) hmap
  rw [List.getElem?_map, List.getElem?_map] at hget
  cases hx : xs[i]? with
  | none =>
    rw [hx] at hget
    simp only [Option.map_none, Option.map_eq_none_iff] at hget
    rw [hget]
    rfl
  | some x =>
    rw [hx] at hget
    obtain ⟨a, ha, hcontent⟩ := Option.map_eq_some_iff.mp hget
    rw [ha, Option.bind_some, hcontent]

theorem Represents.item (h : Represents l xs) (pos : ℤ) :
    (l.item pos).map (fun p => p.bind l.content) =
      .ok (if 0 ≤ pos ∧ pos < xs.length then xs[pos.toNat]? else none) := by
  have hlen := h.length
  obtain ⟨ids, hrepr, hmap⟩ := h
  split_ifs with hpos
  · obtain ⟨k, rfl⟩ := Int.eq_ofNat_of_zero_le hpos.1
    have hk : k < ids.length := by
      rw [← hrepr.length, hlen]
      omega
    have hget := getElem?_content hmap k
    simpa [CList.item_spec hrepr hk, Except.map] using hget
  · rw [CList.item, if_neg fun hcond => hpos (hlen ▸ hcond.2)]
    rfl

theorem Represents.search (h : Represents l xs) (needleSize : ℕ) (found : α → Bool) :
    l.search needleSize found =
      .ok (CList.foundAt (xs.findIdx? fun x => x.2 == needleSize && found x.1)) := by
  obtain ⟨ids, hrepr, hmap⟩ := h
  have hfind := congrArg (List.findIdx? (isNeedle needleSize found)) hmap
  rw [List.findIdx?_map, List.findIdx?_map] at hfind
  rw [CList.search_spec hrepr, matching_eq, hfind]
  rfl

theorem Represents.isSequence (h : Represents l xs) : IsSequence l xs where
  visits := by
    obtain ⟨ids, hrepr, hmap⟩ := h
    refine ⟨ids, hrepr.nodup, hrepr.length.symm, ?_, hrepr.last, hmap⟩
    intro i hi
    rw [hrepr.length] at hi
    rw [hrepr.first, follow_eq hrepr.next hi]
  inverse := by
    obtain ⟨ids, hrepr, -⟩ := h
    exact hrepr.succ_iff_pred
  item := h.item
  first := by
    obtain ⟨ids, hrepr, hmap⟩ := h
    rw [CList.getFirst_spec hrepr, List.head?_eq_getElem?, List.head?_eq_getElem?]
    exact getElem?_content hmap 0
  last := by
    have hlen := h.length
    obtain ⟨ids, hrepr, hmap⟩ := h
    rw [CList.getLast_spec hrepr, List.getLast?_eq_getElem?, List.getLast?_eq_getElem?,
      ← hrepr.length, hlen]
    exact getElem?_content hmap _
  search := h.search

/-- **A list is a sequence** after any operations on a new list: each of them returns
what the operation on the sequence says, the list holds the sequence and answers the
queries from it, and an operation at a position outside of the sequence returns false
and leaves the list as it is. -/
theorem list_is_sequence (ops : List (ListOp α)) :
    ∃ l, ListOp.runAll .new ops = .ok ((ListOp.specAll [] ops).1, l) ∧
      IsSequence l (ListOp.specAll [] ops).2 ∧
      ∀ op : ListOp α, op.spec (ListOp.specAll [] ops).2 = none → op.run l = .ok (false, l) := by
  obtain ⟨l, hrun, hrep⟩ := ListOp.runAll_spec represents_new ops
  refine ⟨l, hrun, hrep.isSequence, ?_⟩
  intro op hnone
  have hop := op.run_spec hrep
  rw [hnone] at hop
  exact hop

/-! ### The cursor -/

/-- The calls that change a list or its cursor. -/
inductive ListCall (α : Type)
  | change (op : ListOp α)
  | next
  | prev
  | rewind
  /-- `List_sort`, with the rounds that its loops may take. -/
  | sort (less : α → α → ℕ → Bool) (rounds : ℕ)

/-- The list after a call, when it returns. -/
def ListCall.step (l : CList α) : ListCall α → Option (CList α)
  | .change op => (op.run l).toOption.map Prod.snd
  | .next => l.next.toOption.map Prod.snd
  | .prev => l.prev.toOption.map Prod.snd
  | .rewind => some l.rewind.2
  | .sort less rounds => (l.sort less rounds).toOption.bind id

/-- The call does not delete the node under the cursor, except when that is the first
node. -/
def KeepsCursor (l : CList α) : ListCall α → Bool
  | .change (.delete pos) => pos == 0 ||
    match l.item pos with
    | .ok (some a) => l.current != some a
    | _ => true
  | _ => true

/-- The cursor is `NULL` or in the list. -/
def CursorValid (l : CList α) : Prop :=
  ∀ a, l.current = some a → ∃ i < l.length, follow l.succ i l.first = .ok (some a)

/-- The invariant. -/
def CursorIn (l : CList α) : Prop := ∃ ids, l.Repr ids ∧ ∀ a, l.current = some a → a ∈ ids

theorem CursorIn.valid (h : CursorIn l) : CursorValid l := by
  obtain ⟨ids, hrepr, hcursor⟩ := h
  intro a ha
  obtain ⟨l₁, l₂, rfl⟩ := List.append_of_mem (hcursor a ha)
  exact ⟨l₁.length, by rw [hrepr.length]; simp, hrepr.walk⟩

theorem CursorIn.of_sameShape (h : CursorIn l) {l' : CList α} (hsame : l.SameShape l') :
    CursorIn l' := by
  obtain ⟨ids, hrepr, hcursor⟩ := h
  refine ⟨ids, hrepr.of_sameShape hsame, ?_⟩
  intro a ha
  exact hcursor a (hsame.current.symm.trans ha)

theorem CursorIn.insert (h : CursorIn l) {value : α} {size : ℕ} {pos : ℤ} {r : Bool}
    {l' : CList α} (hrun : l.insert value size pos true = .ok (r, l')) : CursorIn l' := by
  by_cases hpos : 0 ≤ pos ∧ pos ≤ l.length
  · obtain ⟨ids, hrepr, hcursor⟩ := h
    obtain ⟨k, rfl⟩ := Int.eq_ofNat_of_zero_le hpos.1
    have hk : k ≤ ids.length := by
      rw [← hrepr.length]
      omega
    rw [← List.take_append_drop k ids] at hrepr hcursor
    obtain ⟨l'', hrun', hrepr', hcurrent, -, -⟩ := CList.insert_spec hrepr value size
    rw [List.length_take_of_le hk] at hrun'
    cases hrun.symm.trans hrun'
    refine ⟨_, hrepr', ?_⟩
    intro a ha
    rw [hcurrent] at ha
    split at ha
    · cases ha
      simp
    · have hmem := hcursor a ha
      rw [List.mem_append] at hmem ⊢
      exact hmem.imp_right (List.mem_cons_of_mem _)
  · rw [CList.insert_of_not_le value size true hpos] at hrun
    cases hrun
    exact h

theorem CursorIn.delete (h : CursorIn l) {pos : ℤ}
    (hkeeps : KeepsCursor l (.change (.delete pos)) = true) {r : Bool} {l' : CList α}
    (hrun : l.delete pos = .ok (r, l')) : CursorIn l' := by
  by_cases hpos : 0 ≤ pos ∧ pos < l.length
  · obtain ⟨ids, hrepr, hcursor⟩ := h
    obtain ⟨k, rfl⟩ := Int.eq_ofNat_of_zero_le hpos.1
    have hk : k < ids.length := by
      rw [← hrepr.length]
      omega
    obtain ⟨l₁, x, l₂, rfl, rfl⟩ : ∃ l₁ x l₂, ids = l₁ ++ x :: l₂ ∧ l₁.length = k :=
      ⟨ids.take k, ids[k], ids.drop (k + 1), by simp, List.length_take_of_le hk.le⟩
    obtain ⟨l'', hrun', hrepr', hcurrent, -, -⟩ := CList.delete_spec hrepr
    cases hrun.symm.trans hrun'
    refine ⟨_, hrepr', ?_⟩
    intro a ha
    rw [hcurrent] at ha
    split at ha
    · next hnil =>
      rw [hnil]
      exact List.mem_of_head? ha
    · next hnil =>
      -- the cursor is on another node
      have hne : a ≠ x := by
        rintro rfl
        have hlen : l₁.length ≠ 0 := fun hzero => hnil (List.length_eq_zero_iff.mp hzero)
        simp [KeepsCursor, CList.item_spec hrepr hk, ha, hlen] at hkeeps
      have hmem := hcursor a ha
      rw [List.mem_append, List.mem_cons] at hmem
      rw [List.mem_append]
      exact hmem.imp_right fun hor => hor.resolve_left hne
  · rw [CList.delete_of_not_lt hpos] at hrun
    cases hrun
    exact h

theorem CursorIn.update (h : CursorIn l) {value : α} {size : ℕ} {pos : ℤ} {null : α} {r : Bool}
    {l' : CList α} (hrun : l.update value size pos true null = .ok (r, l')) : CursorIn l' := by
  unfold CList.update at hrun
  split at hrun
  · obtain ⟨p, -, hrun⟩ := bind_eq_ok.mp hrun
    rw [if_pos rfl] at hrun
    obtain ⟨l₁, hmodify, hrun⟩ := bind_eq_ok.mp hrun
    cases hrun
    refine h.of_sameShape (CList.sameShape_of_modify ?_ ?_ hmodify) <;> exact fun _ => rfl
  · cases hrun
    exact h

theorem CursorIn.change (h : CursorIn l) {op : ListOp α}
    (hkeeps : KeepsCursor l (.change op) = true) {r : Bool} {l' : CList α}
    (hrun : op.run l = .ok (r, l')) : CursorIn l' := by
  cases op with
  | append value size => exact h.insert hrun
  | prepend value size =>
    change l.insert value size 0 true = .ok (r, l') at hrun
    exact h.insert hrun
  | insert value size pos => exact h.insert hrun
  | delete pos => exact h.delete hkeeps hrun
  | update value size pos => exact h.update hrun

/-- The cursor moves to a neighbour of the node it is on. -/
theorem CursorIn.next (h : CursorIn l) : ∃ r l', l.next = .ok (r, l') ∧ CursorIn l' := by
  obtain ⟨ids, hrepr, hcursor⟩ := h
  cases hcurrent : l.current with
  | none => exact ⟨none, l, CList.next_none hcurrent, ids, hrepr, hcursor⟩
  | some x =>
    obtain ⟨l₁, l₂, rfl⟩ := List.append_of_mem (hcursor x hcurrent)
    refine ⟨_, _, CList.next_spec hrepr hcurrent, _, hrepr.setCurrent _, ?_⟩
    intro a ha
    have hmem := List.mem_of_head? ha
    simp [hmem]

theorem CursorIn.prev (h : CursorIn l) : ∃ r l', l.prev = .ok (r, l') ∧ CursorIn l' := by
  obtain ⟨ids, hrepr, hcursor⟩ := h
  cases hcurrent : l.current with
  | none => exact ⟨none, l, CList.prev_none hcurrent, ids, hrepr, hcursor⟩
  | some x =>
    obtain ⟨l₁, l₂, rfl⟩ := List.append_of_mem (hcursor x hcurrent)
    refine ⟨_, _, CList.prev_spec hrepr hcurrent, _, hrepr.setCurrent _, ?_⟩
    intro a ha
    have hmem := List.mem_of_getLast? ha
    simp [hmem]

theorem CursorIn.rewind (h : CursorIn l) : CursorIn l.rewind.2 := by
  obtain ⟨ids, hrepr, hcursor⟩ := h
  rw [CList.rewind_spec hrepr]
  refine ⟨ids, hrepr.setCurrent _, ?_⟩
  intro a ha
  dsimp only at ha
  split at ha
  · exact hcursor a ha
  · exact List.mem_of_head? ha

theorem toOption_map_eq_some {β γ : Type} {x : Except Fault (β × γ)} {c : γ}
    (h : x.toOption.map Prod.snd = some c) : ∃ b, x = .ok (b, c) := by
  cases x with
  | error e => cases h
  | ok r =>
    cases h
    exact ⟨r.1, rfl⟩

theorem toOption_bind_eq_some {β : Type} {x : Except Fault (Option β)} {b : β}
    (h : x.toOption.bind id = some b) : x = .ok (some b) := by
  cases x with
  | error e => cases h
  | ok r =>
    obtain rfl : r = some b := h
    rfl

/-- **One call** that keeps the cursor. -/
theorem CursorIn.step (h : CursorIn l) {call : ListCall α} (hkeeps : KeepsCursor l call = true)
    {l' : CList α} (hstep : call.step l = some l') : CursorIn l' := by
  cases call with
  | change op =>
    obtain ⟨r, hrun⟩ := toOption_map_eq_some hstep
    exact h.change hkeeps hrun
  | next =>
    obtain ⟨r, hrun⟩ := toOption_map_eq_some hstep
    obtain ⟨r', l'', hrun', hin⟩ := h.next
    cases hrun.symm.trans hrun'
    exact hin
  | prev =>
    obtain ⟨r, hrun⟩ := toOption_map_eq_some hstep
    obtain ⟨r', l'', hrun', hin⟩ := h.prev
    cases hrun.symm.trans hrun'
    exact hin
  | rewind =>
    cases hstep
    exact h.rewind
  | sort less rounds =>
    exact h.of_sameShape (CList.sameShape_sort (toOption_bind_eq_some hstep))

/-- Every node of a list has an item. -/
theorem exists_contents {ids : List Addr} (h : l.Repr ids) :
    ∃ xs : List (α × ℕ), ids.map l.content = xs.map some := by
  have hlive : ∀ a ∈ ids, ∃ x, l.content a = some x := by
    intro a ha
    obtain ⟨n, hn⟩ := h.exists_heap ha
    exact ⟨_, by rw [CList.content, hn]; rfl⟩
  clear h
  induction ids with
  | nil => exact ⟨[], rfl⟩
  | cons a t ih =>
    rw [List.forall_mem_cons] at hlive
    obtain ⟨⟨x, hx⟩, hrest⟩ := hlive
    obtain ⟨xs, hxs⟩ := ih hrest
    exact ⟨x :: xs, by rw [List.map_cons, List.map_cons, hx, hxs]⟩

/-- Every list with its links in order holds some sequence. -/
theorem exists_represents {ids : List Addr} (h : l.Repr ids) : ∃ xs, Represents l xs := by
  obtain ⟨xs, hxs⟩ := exists_contents h
  exact ⟨xs, ids, h, hxs⟩

/-- With the cursor in the list, every call returns; what becomes of `List_sort` is
another question. -/
theorem CursorIn.isSome_step (h : CursorIn l) {call : ListCall α}
    (hsort : ∀ less rounds, call ≠ .sort less rounds) : (call.step l).isSome = true := by
  cases call with
  | change op =>
    obtain ⟨ids, hrepr, -⟩ := h
    obtain ⟨xs, hxs⟩ := exists_represents hrepr
    have hop := op.run_spec hxs
    rw [ListCall.step]
    split at hop
    · rw [hop]
      rfl
    · obtain ⟨l', hrun, -⟩ := hop
      rw [hrun]
      rfl
  | next =>
    obtain ⟨r, l', hrun, -⟩ := h.next
    rw [ListCall.step, hrun]
    rfl
  | prev =>
    obtain ⟨r, l', hrun, -⟩ := h.prev
    rw [ListCall.step, hrun]
    rfl
  | rewind => rfl
  | sort less rounds => exact absurd rfl (hsort less rounds)

/-- **The cursor is in the list** in every run where the node under it is not deleted,
except when that is the first node; and no call follows it into freed memory. -/
theorem cursor_valid
    (hreach : Reachable (restrict ListCall.step fun l call => KeepsCursor l call = true)
      CList.new l) :
    CursorValid l ∧ ∀ call : ListCall α, (∀ less rounds, call ≠ .sort less rounds) →
      (call.step l).isSome = true := by
  have hin : CursorIn l := by
    refine hreach.invariant_restrict ⟨[], CList.repr_new, by simp [CList.new]⟩ ?_
    intro l₁ call l₂ _ hin hkeeps hstep
    exact hin.step hkeeps hstep
  exact ⟨hin.valid, fun call hsort => hin.isSome_step hsort⟩

/-- Two nodes are appended, and the first one is deleted with the cursor on it: the
cursor moves on. -/
theorem cursor_valid_first :
    ∃ l : CList ℕ, Reachable (restrict ListCall.step fun l call => KeepsCursor l call = true)
      CList.new l ∧ l.current = some 1 ∧ CursorValid l := by
  obtain ⟨l, hreach, hl⟩ : ∃ l : CList ℕ,
      Reachable (restrict ListCall.step fun l call => KeepsCursor l call = true) CList.new l ∧
        (l.current == some 1) = true :=
    Reachable.of_any [.change (.append 5 4), .change (.append 6 4), .change (.delete 0)]
      (by decide +kernel)
  exact ⟨l, hreach, eq_of_beq hl, (cursor_valid hreach).1⟩

/-- The cursor is on the second node when that is deleted, and points to freed memory
afterwards. -/
theorem not_cursor_valid_second :
    ∃ l : CList ℕ, Reachable ListCall.step CList.new l ∧ l.current = some 1 ∧ l.heap 1 = none ∧
      ¬ CursorValid l := by
  obtain ⟨l, hreach, hl⟩ : ∃ l : CList ℕ, Reachable ListCall.step CList.new l ∧
      (l.current == some 1 && (l.heap 1).isNone && l.length == 1 && l.first == some 0) = true :=
    Reachable.of_any [.change (.append 5 4), .change (.append 6 4), .next, .change (.delete 1)]
      (by decide +kernel)
  simp only [Bool.and_eq_true, beq_iff_eq, Option.isNone_iff_eq_none] at hl
  obtain ⟨⟨⟨hcurrent, hheap⟩, hlength⟩, hfirst⟩ := hl
  refine ⟨l, hreach, hcurrent, hheap, fun hvalid => ?_⟩
  obtain ⟨i, hi, hfollow⟩ := hvalid 1 hcurrent
  obtain rfl : i = 0 := by omega
  rw [hfirst] at hfollow
  cases hfollow

end C2Hat
