import C2Hat.CList
import C2Hat.Lib.Printf

/-!
# Sorting a list

`List_sort` of `src/lib/list/list.c`: a quick sort that exchanges the data of nodes and
leaves the nodes where they are.  The loop and the recursion run on pointers, so both
are given a number of rounds they may take; the result is `none` when these are used up.

## Main definitions

* `CList.swap`, `CList.quickSortList`, `CList.sort` — the operations.

## Main results

* `CList.sameShape_sort` — **sorting moves data only.**
-/

namespace C2Hat

open Clib

namespace CList

variable {α : Type}

/-! ### Operations -/

/-- `Node_swap(a, b)`. -/
def swap (l : CList α) (a b : Option Addr) : Except Fault (CList α) := do
  let na ← l.deref a
  let nb ← l.deref b
  let l ← l.modify a fun n => { n with data := nb.data, dataSize := nb.dataSize }
  l.modify b fun n => { n with data := na.data, dataSize := na.dataSize }

/-- The loop of `QuickSortList`, which ends at `right`; `less x y size` is whether
`compare(x, y, size)` is negative. -/
def quickSortLoop (less : α → α → ℕ → Bool) (start right : Option Addr) :
    ℕ → CList α → Option Addr → Except Fault (Option (Option Addr × CList α))
  | 0, _, _ => .ok none
  | rounds + 1, l, current => do
    let ns ← l.deref start
    let nc ← l.deref current
    let l ← (if less ns.data nc.data (min ns.dataSize nc.dataSize) then l.swap start current
      else .ok l)
    if current = right then return some (current, l)
    let nc ← l.deref current
    quickSortLoop less start right rounds l nc.next

/-- The test `p->prev != q && q->next != p` for a part that is not empty. -/
def apart (l : CList α) (p q : Option Addr) : Except Fault Bool := do
  let np ← l.deref p
  if np.prev = q then return false
  let nq ← l.deref q
  return nq.next ≠ p

/-- `QuickSortList(left, right, compare)`. -/
def quickSortList (less : α → α → ℕ → Bool) :
    ℕ → CList α → Option Addr → Option Addr → Except Fault (Option (CList α))
  | 0, _, _, _ => .ok none
  | rounds + 1, l, left, right =>
    if left = right then .ok (some l)
    else do
      let nl ← l.deref left
      let some (current, l) ← quickSortLoop less left right rounds l nl.next | return none
      let l ← l.swap left current
      -- the nodes in front of `current`
      let nc ← l.deref current
      let more ← (if nc.prev = none then .ok false else l.apart left nc.prev)
      let some l ← (if more then quickSortList less rounds l left nc.prev else .ok (some l))
        | return none
      -- the nodes behind it
      let nc ← l.deref current
      let more ← (if nc.next = none then .ok false else l.apart nc.next right)
      if more then quickSortList less rounds l nc.next right else return some l

/-- `List_sort(this, compare)`. -/
def sort (l : CList α) (less : α → α → ℕ → Bool) (rounds : ℕ) :
    Except Fault (Option (CList α)) :=
  if l.empty = false then quickSortList less rounds l l.first l.last else .ok (some l)

/-! ### Shape -/

variable {l l' : CList α} {less : α → α → ℕ → Bool}

/-- Writing to the data of a node, whichever it is. -/
theorem sameShape_of_modify {p : Option Addr} {f : ListNode α → ListNode α}
    (hnext : ∀ n, (f n).next = n.next) (hprev : ∀ n, (f n).prev = n.prev)
    (h : l.modify p f = .ok l') : SameShape l l' := by
  cases p with
  | none => cases h
  | some a =>
    cases hn : l.heap a with
    | none => simp [modify, hn] at h
    | some n =>
      rw [modify_eq hn] at h
      cases h
      exact sameShape_modify hn (hnext n) (hprev n)

theorem sameShape_swap {a b : Option Addr} (h : l.swap a b = .ok l') : SameShape l l' := by
  obtain ⟨na, -, h⟩ := bind_eq_ok.mp h
  obtain ⟨nb, -, h⟩ := bind_eq_ok.mp h
  obtain ⟨l₁, h₁, h₂⟩ := bind_eq_ok.mp h
  have hfirst : SameShape l l₁ := by
    refine sameShape_of_modify ?_ ?_ h₁ <;> exact fun _ => rfl
  have hsecond : SameShape l₁ l' := by
    refine sameShape_of_modify ?_ ?_ h₂ <;> exact fun _ => rfl
  exact hfirst.trans hsecond

theorem sameShape_quickSortLoop {start right : Option Addr} {rounds : ℕ} {current : Option Addr}
    {last : Option Addr}
    (h : quickSortLoop less start right rounds l current = .ok (some (last, l'))) :
    SameShape l l' := by
  induction rounds generalizing l current with
  | zero => cases h
  | succ rounds ih =>
    obtain ⟨ns, -, h⟩ := bind_eq_ok.mp h
    obtain ⟨nc, -, h⟩ := bind_eq_ok.mp h
    obtain ⟨l₁, h₁, h⟩ := bind_eq_ok.mp h
    have hswap : SameShape l l₁ := by
      split at h₁
      · exact sameShape_swap h₁
      · cases h₁
        exact .refl l
    split at h
    · cases h
      exact hswap
    · obtain ⟨nc', -, h⟩ := bind_eq_ok.mp h
      exact hswap.trans (ih h)

theorem sameShape_quickSortList {rounds : ℕ} {left right : Option Addr}
    (h : quickSortList less rounds l left right = .ok (some l')) : SameShape l l' := by
  induction rounds generalizing l l' left right with
  | zero => cases h
  | succ rounds ih =>
    unfold quickSortList at h
    split at h
    · cases h
      exact .refl l
    · obtain ⟨nl, -, h⟩ := bind_eq_ok.mp h
      obtain ⟨r, hloop, h⟩ := bind_eq_ok.mp h
      obtain _ | ⟨current, l₁⟩ := r
      · cases h
      · obtain ⟨l₂, hswap, h⟩ := bind_eq_ok.mp h
        obtain ⟨nc, -, h⟩ := bind_eq_ok.mp h
        obtain ⟨more, -, h⟩ := bind_eq_ok.mp h
        obtain ⟨r, hleft, h⟩ := bind_eq_ok.mp h
        obtain _ | l₃ := r
        · cases h
        · obtain ⟨nc', -, h⟩ := bind_eq_ok.mp h
          obtain ⟨more', -, h⟩ := bind_eq_ok.mp h
          have hshape := (sameShape_quickSortLoop hloop).trans (sameShape_swap hswap)
          have hshape' : SameShape l₂ l₃ := by
            split at hleft
            · exact ih hleft
            · cases hleft
              exact .refl _
          have hright : SameShape l₃ l' := by
            split at h
            · exact ih h
            · cases h
              exact .refl _
          exact (hshape.trans hshape').trans hright

/-- **Sorting moves data only**: nodes, links, ends, length and cursor stay. -/
theorem sameShape_sort {rounds : ℕ} (h : l.sort less rounds = .ok (some l')) : SameShape l l' := by
  unfold sort at h
  split at h
  · exact sameShape_quickSortList h
  · cases h
    exact .refl l

end CList

end C2Hat
