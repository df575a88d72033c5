import Mathlib.Data.List.Nodup
import Mathlib.Data.List.Perm.Subperm
import Mathlib.Logic.Function.Basic
import C2Hat.Lib.CString

/-!
# Linked chains of heap cells

A chain is a list of addresses in which each cell holds the address of the next
one.  Only the links matter here, so a heap is seen as the function `succ` from an
address to the link stored there (`none` when there is no cell).  A doubly linked
list is two chains, one of them over the reversed addresses.

## Main definitions

* `Links succ ids e` — the cells of `ids` are linked in this order, and the last
  one holds `e`.
* `follow` — walking along the links, with the faults of a walk that leaves them.
* `findFrom`, `lastFrom` — loops over a chain, which may also not end.

## Main results

* `links_append` — a chain is cut anywhere.
* `links_unique` — a chain that ends is determined by where it starts.
* `links_redirect`, `links_replace`, `links_splice`, `links_bypass` — storing a link
  changes where a chain goes on, so that cells are exchanged, put in or taken out.
* `follow_eq`, `follow_beyond`, `findFrom_eq`, `lastFrom_eq` — walks along a chain find its
  cells, and no further ones.
-/

namespace Clib

/-- An address in the heap.  Addresses of freed cells are not used again, so that
cells can be told apart by them. -/
abbrev Addr := ℕ

/-- The cells of `ids` are linked one to the next, and the last one to `e`. -/
def Links (succ : Addr → Option (Option Addr)) : List Addr → Option Addr → Prop
  | [], _ => True
  | a :: t, e => succ a = some (t.head?.or e) ∧ Links succ t e

/-- Follow `n` links from a pointer. -/
def follow (succ : Addr → Option (Option Addr)) : ℕ → Option Addr → Except Fault (Option Addr)
  | 0, p => .ok p
  | _ + 1, none => .error .nullDeref
  | n + 1, some a =>
    match succ a with
    | none => .error .useAfterFree
    | some q => follow succ n q

/-- What a loop over a chain runs into other than its own exit. -/
inductive Stuck
  | fault (f : Fault)
  /-- The links go round for ever. -/
  | endless
  deriving DecidableEq, Repr

/-- The loop that looks for a cell with property `p`, for at most so many rounds: the
cell in front of it and the cell, `none` past the end. -/
def findFrom (succ : Addr → Option (Option Addr)) (p : Addr → Bool) :
    ℕ → Option Addr → Option Addr → Except Stuck (Option Addr × Option Addr)
  | 0, _, _ => .error .endless
  | _ + 1, prev, none => .ok (prev, none)
  | rounds + 1, prev, some a =>
    match succ a with
    | none => .error (.fault .useAfterFree)
    | some q => if p a then .ok (prev, some a) else findFrom succ p rounds (some a) q

/-- The loop that goes to the last cell. -/
def lastFrom (succ : Addr → Option (Option Addr)) : ℕ → Addr → Except Stuck Addr
  | 0, _ => .error .endless
  | rounds + 1, a =>
    match succ a with
    | none => .error (.fault .useAfterFree)
    | some none => .ok a
    | some (some b) => lastFrom succ rounds b

variable {succ succ' : Addr → Option (Option Addr)}

theorem links_append (l₁ l₂ : List Addr) (e : Option Addr) :
    Links succ (l₁ ++ l₂) e ↔ Links succ l₁ (l₂.head?.or e) ∧ Links succ l₂ e := by
  induction l₁ with
  | nil => simp [Links]
  | cons a t ih =>
    have hhead : (t ++ l₂).head?.or e = t.head?.or (l₂.head?.or e) := by
      rw [List.head?_append, Option.or_assoc]
    simp only [List.cons_append, Links, ih, hhead, and_assoc]

/-- Only the cells of a chain matter. -/
theorem links_congr {ids : List Addr} {e : Option Addr} (h : ∀ a ∈ ids, succ' a = succ a)
    (hlinks : Links succ ids e) : Links succ' ids e := by
  induction ids with
  | nil => trivial
  | cons a t ih =>
    rw [List.forall_mem_cons] at h
    exact ⟨h.1.trans hlinks.1, ih h.2 hlinks.2⟩

/-- There is one chain from a pointer to the `NULL` at its end. -/
theorem links_unique {ids ids' : List Addr} (h : Links succ ids none) (h' : Links succ ids' none)
    (hhead : ids.head? = ids'.head?) : ids = ids' := by
  induction ids generalizing ids' with
  | nil => exact (List.head?_eq_none_iff.mp hhead.symm).symm
  | cons a t ih =>
    obtain ⟨t', rfl⟩ := List.head?_eq_some_iff.mp hhead.symm
    have hnext : some (t.head?.or none) = some (t'.head?.or none) := h.1.symm.trans h'.1
    rw [Option.or_none, Option.or_none, Option.some.injEq] at hnext
    rw [ih h.2 h'.2 hnext]

/-- Another link in the last cell leads the chain elsewhere. -/
theorem links_redirect {l : List Addr} {b : Addr} {e e' : Option Addr}
    (hlinks : Links succ (l ++ [b]) e) (hsucc : succ' b = some e')
    (hother : ∀ a ∈ l, succ' a = succ a) : Links succ' (l ++ [b]) e' := by
  rw [links_append] at hlinks ⊢
  refine ⟨?_, by simpa using hsucc, trivial⟩
  exact links_congr hother hlinks.1

/-- The same for a chain that may be empty. -/
theorem links_front {l : List Addr} {e e' : Option Addr} (hlinks : Links succ l e)
    (hnodup : l.Nodup) (hlast : ∀ b ∈ l.getLast?, succ' b = some e')
    (hother : ∀ a ∈ l, (∀ b ∈ l.getLast?, a ≠ b) → succ' a = succ a) : Links succ' l e' := by
  rcases List.eq_nil_or_concat l with rfl | ⟨t, b, rfl⟩
  · trivial
  · rw [List.concat_eq_append] at *
    rw [List.getLast?_append, List.getLast?_singleton] at hlast hother
    simp only [Option.some_or, Option.mem_def, Option.some.injEq, forall_eq'] at hlast hother
    rw [List.nodup_append] at hnodup
    have hbt : b ∉ t := fun h => hnodup.2.2 b h b (by simp) rfl
    refine links_redirect hlinks hlast fun a ha => hother a (by simp [ha]) ?_
    rintro rfl
    exact hbt ha

/-- Cells in the middle of a chain are exchanged for others, already linked to what
comes behind, by storing a link to them in the cell in front, if there is one. -/
theorem links_replace {l₁ l₂ : List Addr} {e : Option Addr} (old new : List Addr)
    (hlinks : Links succ (l₁ ++ (old ++ l₂)) e) (hnodup : (l₁ ++ (old ++ l₂)).Nodup)
    (hnew : Links succ' new (l₂.head?.or e))
    (hlast : ∀ b ∈ l₁.getLast?, succ' b = some ((new ++ l₂).head?.or e))
    (hother : ∀ a ∈ l₁ ++ l₂, (∀ b ∈ l₁.getLast?, a ≠ b) → succ' a = succ a) :
    Links succ' (l₁ ++ (new ++ l₂)) e := by
  rw [links_append, links_append] at hlinks ⊢
  obtain ⟨hfront, -, hback⟩ := hlinks
  rw [List.nodup_append] at hnodup
  obtain ⟨hn₁, -, hdisj⟩ := hnodup
  refine ⟨?_, hnew, ?_⟩
  · exact links_front hfront hn₁ hlast fun a ha => hother a (by simp [ha])
  · refine links_congr (fun a ha => hother a (by simp [ha]) ?_) hback
    rintro b hb rfl
    exact hdisj a (List.mem_of_getLast? hb) a (by simp [ha]) rfl

/-- A cell is put into a chain. -/
theorem links_splice {l₁ l₂ : List Addr} {x : Addr} {e : Option Addr}
    (hlinks : Links succ (l₁ ++ l₂) e) (hnodup : (l₁ ++ l₂).Nodup)
    (hx : succ' x = some (l₂.head?.or e)) (hlast : ∀ b ∈ l₁.getLast?, succ' b = some (some x))
    (hother : ∀ a ∈ l₁ ++ l₂, (∀ b ∈ l₁.getLast?, a ≠ b) → succ' a = succ a) :
    Links succ' (l₁ ++ x :: l₂) e :=
  links_replace [] [x] hlinks hnodup ⟨hx, trivial⟩ hlast hother

/-- A cell is taken out of a chain by storing its link in the cell in front of it,
if there is one. -/
theorem links_bypass {l₁ l₂ : List Addr} {x : Addr} {e : Option Addr}
    (hlinks : Links succ (l₁ ++ x :: l₂) e) (hnodup : (l₁ ++ x :: l₂).Nodup)
    (hlast : ∀ b ∈ l₁.getLast?, succ' b = succ x)
    (hother : ∀ a, a ≠ x → (∀ b ∈ l₁.getLast?, a ≠ b) → succ' a = succ a) :
    Links succ' (l₁ ++ l₂) e := by
  have hx : succ x = some (l₂.head?.or e) := ((links_append _ _ _).mp hlinks).2.1
  refine links_replace [x] [] hlinks hnodup trivial
    (fun b hb => (hlast b hb).trans hx) fun a ha => hother a ?_
  rintro rfl
  rw [List.nodup_middle, List.nodup_cons] at hnodup
  exact hnodup.1 ha

/-- Different cells that were handed out in order are no more than were handed out. -/
theorem length_le_of_bounded {ids : List Addr} {fresh : Addr} (hnodup : ids.Nodup)
    (hbound : ∀ a ∈ ids, a < fresh) : ids.length ≤ fresh := by
  have hsub : ids ⊆ List.range fresh := by
    intro a ha
    exact List.mem_range.mpr (hbound a ha)
  simpa using (List.subperm_of_subset hnodup hsub).length_le

/-- A walk along a chain that ends with `NULL`. -/
theorem follow_eq {ids : List Addr} (hlinks : Links succ ids none) :
    ∀ {n : ℕ}, n ≤ ids.length → follow succ n ids.head? = .ok ids[n]? := by
  induction ids with
  | nil =>
    intro n hn
    obtain rfl : n = 0 := by simpa using hn
    rfl
  | cons a t ih =>
    intro n hn
    cases n with
    | zero => rfl
    | succ n =>
      have hnext : succ a = some t.head? := by simpa using hlinks.1
      simp only [List.head?_cons, follow, hnext, List.getElem?_cons_succ]
      exact ih hlinks.2 (by simpa using hn)

/-- A walk past the end of it. -/
theorem follow_beyond {ids : List Addr} (hlinks : Links succ ids none) :
    ∀ {n : ℕ}, ids.length < n → follow succ n ids.head? = .error .nullDeref := by
  induction ids with
  | nil =>
    intro n hn
    obtain ⟨n, rfl⟩ := Nat.exists_eq_add_one.mpr hn
    rfl
  | cons a t ih =>
    intro n hn
    obtain ⟨n, rfl⟩ := Nat.exists_eq_add_one.mpr (Nat.zero_lt_of_lt hn)
    have hnext : succ a = some t.head? := by simpa using hlinks.1
    simp only [List.head?_cons, follow, hnext]
    exact ih hlinks.2 (Nat.lt_of_succ_lt_succ hn)

/-- The cell that is found is the first one with the property. -/
theorem findFrom_eq {l₁ l₂ : List Addr} {p : Addr → Bool} (hlinks : Links succ (l₁ ++ l₂) none)
    (hbefore : ∀ a ∈ l₁, p a = false) (hfound : ∀ a ∈ l₂.head?, p a = true) :
    ∀ {rounds : ℕ} (prev : Option Addr), l₁.length < rounds →
      findFrom succ p rounds prev (l₁ ++ l₂).head? = .ok (l₁.getLast?.or prev, l₂.head?) := by
  induction l₁ with
  | nil =>
    intro rounds prev hrounds
    obtain ⟨r, rfl⟩ := Nat.exists_eq_add_one.mpr hrounds
    cases l₂ with
    | nil => rfl
    | cons a t => simp [findFrom, hlinks.1, hfound a rfl]
  | cons a t ih =>
    intro rounds prev hrounds
    obtain ⟨r, rfl⟩ := Nat.exists_eq_add_one.mpr (Nat.zero_lt_of_lt hrounds)
    rw [List.forall_mem_cons] at hbefore
    have hnext : succ a = some (t ++ l₂).head? := by simpa using hlinks.1
    have hlast : (a :: t).getLast?.or prev = t.getLast?.or (some a) := by
      cases t <;> simp [List.getLast?_cons]
    simp only [List.cons_append, List.head?_cons, findFrom, hnext, hbefore.1, hlast]
    exact ih hlinks.2 hbefore.2 (some a) (by simpa using hrounds)

/-- The last cell of a chain. -/
theorem lastFrom_eq {a : Addr} {l : List Addr} (hlinks : Links succ (a :: l) none) {rounds : ℕ}
    (hrounds : l.length < rounds) : lastFrom succ rounds a = .ok ((a :: l).getLast (by simp)) := by
  induction l generalizing a rounds with
  | nil =>
    obtain ⟨r, rfl⟩ := Nat.exists_eq_add_one.mpr hrounds
    simp [lastFrom, hlinks.1]
  | cons b t ih =>
    obtain ⟨r, rfl⟩ := Nat.exists_eq_add_one.mpr (Nat.zero_lt_of_lt hrounds)
    have hnext : succ a = some (some b) := by simpa using hlinks.1
    simp only [lastFrom, hnext, List.getLast_cons_cons]
    exact ih hlinks.2 (by simpa using hrounds)

end Clib
