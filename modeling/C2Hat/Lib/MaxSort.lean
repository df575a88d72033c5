import Mathlib.Data.List.Perm.Basic
import Mathlib.Order.RelClasses

/-!
# Sorting by carrying the greatest item to the end

A pass over a list holds an item in the hand and exchanges it for every greater one it
comes to, so that it ends with a greatest item.  That one is put last, and the rest is
sorted in the same way, from the item that has made place for it on.

## Main definitions

* `carry` — a pass: the item in the hand at the end, and what has been left behind.
* `lastFirst` — a list with its last item in front.
* `maxSort` — the sort.

## Main results

* `perm_maxSort` — **a sorted list is a permutation.**
* `pairwise_maxSort` — **no item is less than one in front of it**, for an order that is
  irreflexive and transitive.
-/

namespace MaxSort

variable {β : Type} (less : β → β → Bool)

/-- Pass over a list with `m` in the hand. -/
def carry (m : β) : List β → β × List β
  | [] => (m, [])
  | y :: ys =>
    if less m y then ((carry y ys).1, m :: (carry y ys).2)
    else ((carry m ys).1, y :: (carry m ys).2)

/-- The last item comes first. -/
def lastFirst (zs : List β) : List β := zs.getLast?.toList ++ zs.dropLast

theorem lastFirst_append (zs : List β) (z : β) : lastFirst (zs ++ [z]) = z :: zs := by
  simp [lastFirst]

theorem perm_lastFirst (zs : List β) : (lastFirst zs).Perm zs := by
  rcases List.eq_nil_or_concat zs with rfl | ⟨t, z, rfl⟩
  · exact .refl _
  · rw [List.concat_eq_append, lastFirst_append]
    exact (List.perm_append_singleton z t).symm

theorem length_carry (m : β) (ys : List β) : (carry less m ys).2.length = ys.length := by
  induction ys generalizing m with
  | nil => rfl
  | cons y ys ih =>
    rw [carry]
    split <;> simp [ih]

/-- A pass over a list that is not empty leaves a last item. -/
theorem exists_carry_concat (m y : β) (ys : List β) :
    ∃ zs z, (carry less m (y :: ys)).2 = zs ++ [z] := by
  have hne : (carry less m (y :: ys)).2 ≠ [] := by
    rw [← List.length_pos_iff, length_carry]
    simp
  exact ⟨_, _, (List.dropLast_append_getLast hne).symm⟩

/-- Sort a list: a pass from the first item on finds the one to come last. -/
def maxSort : List β → List β
  | [] => []
  | x :: ys => maxSort (lastFirst (carry less x ys).2) ++ [(carry less x ys).1]
termination_by xs => xs.length
decreasing_by simp [(perm_lastFirst _).length_eq, length_carry]

theorem maxSort_cons (x : β) (ys : List β) :
    maxSort less (x :: ys) =
      maxSort less (lastFirst (carry less x ys).2) ++ [(carry less x ys).1] := by
  rw [maxSort]

/-! ### A permutation -/

theorem perm_carry (m : β) (ys : List β) :
    ((carry less m ys).1 :: (carry less m ys).2).Perm (m :: ys) := by
  induction ys generalizing m with
  | nil => exact .refl _
  | cons y ys ih =>
    rw [carry]
    split
    · exact (List.Perm.swap _ _ _).trans ((ih y).cons m)
    · exact (List.Perm.swap _ _ _).trans (((ih m).cons y).trans (List.Perm.swap _ _ _))

/-- **A sorted list is a permutation** of the list. -/
theorem perm_maxSort (xs : List β) : (maxSort less xs).Perm xs := by
  induction xs using maxSort.induct less with
  | case1 =>
    rw [maxSort]
  | case2 x ys ih =>
    rw [maxSort_cons]
    have hrest := ih.trans (perm_lastFirst _)
    have hlast := (List.perm_append_singleton (carry less x ys).1 _).trans (hrest.cons _)
    exact hlast.trans (perm_carry less x ys)

/-! ### In order -/

variable {less}

/-- The item in the hand only grows. -/
theorem carry_grows (htrans : ∀ a b c, less a b → less b c → less a c) (m : β) (ys : List β) :
    (carry less m ys).1 = m ∨ less m (carry less m ys).1 := by
  induction ys generalizing m with
  | nil => exact .inl rfl
  | cons y ys ih =>
    rw [carry]
    split
    · next hlt =>
      right
      rcases ih y with heq | hgrow
      · rw [heq]
        exact hlt
      · exact htrans _ _ _ hlt hgrow
    · exact ih m

/-- The item in the hand at the end is not less than any that has been left behind. -/
theorem carry_max (hirrefl : ∀ a, ¬ less a a) (htrans : ∀ a b c, less a b → less b c → less a c)
    (m : β) (ys : List β) : ∀ z ∈ (carry less m ys).2, ¬ less (carry less m ys).1 z := by
  induction ys generalizing m with
  | nil => simp [carry]
  | cons y ys ih =>
    rw [carry]
    split
    · next hlt =>
      rw [List.forall_mem_cons]
      refine ⟨?_, ih y⟩
      intro hback
      rcases carry_grows htrans y ys with heq | hgrow
      · rw [heq] at hback
        exact hirrefl _ (htrans _ _ _ hlt hback)
      · exact hirrefl _ (htrans _ _ _ (htrans _ _ _ hlt hgrow) hback)
    · next hnot =>
      rw [List.forall_mem_cons]
      refine ⟨?_, ih m⟩
      intro hback
      rcases carry_grows htrans m ys with heq | hgrow
      · rw [heq] at hback
        exact hnot hback
      · exact hnot (htrans _ _ _ hgrow hback)

/-- **No item of a sorted list is less than one in front of it.** -/
theorem pairwise_maxSort (hirrefl : ∀ a, ¬ less a a)
    (htrans : ∀ a b c, less a b → less b c → less a c) (xs : List β) :
    (maxSort less xs).Pairwise fun a b => ¬ less b a := by
  induction xs using maxSort.induct less with
  | case1 =>
    rw [maxSort]
    exact .nil
  | case2 x ys ih =>
    rw [maxSort_cons, List.pairwise_append]
    refine ⟨ih, List.pairwise_singleton _ _, ?_⟩
    intro a ha b hb
    obtain rfl := List.mem_singleton.mp hb
    have hmem := (perm_lastFirst _).mem_iff.mp ((perm_maxSort less _).mem_iff.mp ha)
    exact carry_max hirrefl htrans x ys a hmem

end MaxSort
