import C2Hat.Allocations
import C2Hat.Lib.MaxSort

/-!
# What sorting a list does

`List_sort` of `src/lib/list/list.c` is called a quick sort, but its pass exchanges the
first node of a part for every greater one, and so carries the greatest item to the right
end of the part.  Nothing is ever left to sort behind it: the tests on neighbours send
the recursion into the nodes in front, and never into those behind.

## Main definitions

* `CList.Chain` — the nodes of a list are linked in order.
* `before` — the comparison as `QuickSortList` makes it, on items with their sizes.

## Main results

* `CList.quickSortList_spec` — **a part is sorted** by `maxSort`, and nothing else changes.
* `list_sort_sorts` — **sorting sorts.**
-/

namespace C2Hat

open Clib Runs MaxSort

variable {α : Type}

/-- The comparison of two items: with the smaller one of their sizes. -/
def before (less : α → α → ℕ → Bool) (p q : α × ℕ) : Bool := less p.1 q.1 (min p.2 q.2)

namespace CList

variable {l l' : CList α} {less : α → α → ℕ → Bool}

/-- The nodes at `ids` are linked in this order, in both directions. -/
structure Chain (l : CList α) (ids : List Addr) : Prop where
  nodup : ids.Nodup
  node : ∀ l₁ x l₂, ids = l₁ ++ x :: l₂ →
    ∃ n, l.heap x = some n ∧ n.next = l₂.head? ∧ n.prev = l₁.getLast?

theorem Repr.chain {ids : List Addr} (h : Repr l ids) : Chain l ids where
  nodup := h.nodup
  node := by
    intro l₁ x l₂ hids
    subst hids
    exact h.node

theorem Chain.of_sameShape {ids : List Addr} (h : Chain l ids) (hsame : SameShape l l') :
    Chain l' ids where
  nodup := h.nodup
  node := by
    intro l₁ x l₂ hids
    obtain ⟨n, hn, hnext, hprev⟩ := h.node l₁ x l₂ hids
    have hsucc := hsame.succ x
    have hpred := hsame.pred x
    rw [succ, succ, hn, Option.map_some, hnext] at hsucc
    rw [pred, pred, hn, Option.map_some, hprev] at hpred
    obtain ⟨n', hn', hnext'⟩ := Option.map_eq_some_iff.mp hsucc
    rw [hn', Option.map_some, Option.some_inj] at hpred
    exact ⟨n', hn', hnext', hpred⟩

/-- A node with its content. -/
theorem Chain.node_content {l₁ l₂ : List Addr} {x : Addr} (h : Chain l (l₁ ++ x :: l₂))
    {p : α × ℕ} (hp : l.content x = some p) :
    ∃ n, l.heap x = some n ∧ n.next = l₂.head? ∧ n.prev = l₁.getLast? ∧ n.data = p.1 ∧
      n.dataSize = p.2 := by
  obtain ⟨n, hn, hnext, hprev⟩ := h.node l₁ x l₂ rfl
  rw [content, hn, Option.map_some, Option.some_inj] at hp
  subst hp
  exact ⟨n, hn, hnext, hprev, rfl, rfl⟩

/-! ### The pass -/

/-- **Exchanging** the contents of two nodes. -/
theorem swap_spec {a b : Addr} {na nb : ListNode α} (hab : a ≠ b) (ha : l.heap a = some na)
    (hb : l.heap b = some nb) :
    ∃ l', l.swap (some a) (some b) = .ok l' ∧ SameShape l l' ∧ l'.content a = l.content b ∧
      l'.content b = l.content a ∧ ∀ c, c ≠ a → c ≠ b → l'.content c = l.content c := by
  have hrun : l.swap (some a) (some b) = .ok { l with
      heap := Function.update
        (Function.update l.heap a (some { na with data := nb.data, dataSize := nb.dataSize })) b
        (some { nb with data := na.data, dataSize := na.dataSize }) } := by
    simp [swap, deref, ha, hb, modify, bind, Except.bind, hab.symm]
  refine ⟨_, hrun, sameShape_swap hrun, ?_, ?_, ?_⟩
  · simp [content, hab, hb]
  · simp [content, ha]
  · intro c hca hcb
    simp [content, hca, hcb]

/-- **One round of the pass**: the greater one of the two items is in the hand
afterwards. -/
theorem round_spec (less : α → α → ℕ → Bool) {right : Option Addr}
    {rest pre done post : List Addr} {s c : Addr} {m y : α × ℕ} {rounds : ℕ}
    (hchain : Chain l (pre ++ s :: (done ++ c :: (rest ++ post)))) (hm : l.content s = some m)
    (hy : l.content c = some y) :
    ∃ l₁, quickSortLoop less (some s) right (rounds + 1) l (some c) =
        (if some c = right then .ok (some (some c, l₁))
          else quickSortLoop less (some s) right rounds l₁ (rest ++ post).head?) ∧
      SameShape l l₁ ∧ l₁.content s = some (if before less m y then y else m) ∧
      l₁.content c = some (if before less m y then m else y) ∧
      ∀ a, a ≠ s → a ≠ c → l₁.content a = l.content a := by
  obtain ⟨ns, hns, -, -, hdata, hsize⟩ := hchain.node_content hm
  have hchain' : Chain l ((pre ++ s :: done) ++ c :: (rest ++ post)) := by
    simpa using hchain
  obtain ⟨nc, hnc, -, -, hdata', hsize'⟩ := hchain'.node_content hy
  have hsc : s ≠ c := by
    have hnodup := hchain'.nodup
    rw [List.nodup_append] at hnodup
    exact hnodup.2.2 s (by simp) c (by simp)
  have htest : less ns.data nc.data (min ns.dataSize nc.dataSize) = before less m y := by
    rw [hdata, hdata', hsize, hsize', before]
  -- the list after the exchange, if there is one
  obtain ⟨l₁, hrun, hsame, hs, hc, hother⟩ : ∃ l₁,
      (if before less m y = true then l.swap (some s) (some c) else .ok l) = .ok l₁ ∧
      SameShape l l₁ ∧ l₁.content s = some (if before less m y then y else m) ∧
      l₁.content c = some (if before less m y then m else y) ∧
      ∀ a, a ≠ s → a ≠ c → l₁.content a = l.content a := by
    by_cases hless : before less m y = true
    · obtain ⟨l₁, hrun, hsame, hs, hc, hother⟩ := swap_spec hsc hns hnc
      rw [hy] at hs
      rw [hm] at hc
      simp only [if_pos hless]
      exact ⟨l₁, hrun, hsame, hs, hc, hother⟩
    · simp only [if_neg hless]
      exact ⟨l, rfl, .refl l, hm, hy, fun _ _ _ => rfl⟩
  refine ⟨l₁, ?_, hsame, hs, hc, hother⟩
  obtain ⟨nc', hnc', hnext, -⟩ := (hchain'.of_sameShape hsame).node _ _ _ rfl
  simp only [quickSortLoop, deref, hns, hnc, bind, Except.bind, htest, hrun, hnc', hnext]
  rfl

/-- The nodes that are left to the pass are different. -/
theorem Chain.nodup_rest {pre done rest post : List Addr} {s : Addr}
    (h : Chain l (pre ++ s :: (done ++ (rest ++ post)))) : (s :: rest).Nodup := by
  have hrest : rest.Sublist (done ++ (rest ++ post)) :=
    (List.sublist_append_left rest post).trans (List.sublist_append_right done _)
  exact h.nodup.sublist ((hrest.cons_cons s).trans (List.sublist_append_right pre _))

/-- **The pass**: it goes over the nodes at `c :: rest` with the item of the first node in
the hand. -/
theorem quickSortLoop_spec (less : α → α → ℕ → Bool) {right : Addr}
    {rest pre done post : List Addr} {s c : Addr} {m y : α × ℕ} {ys : List (α × ℕ)} {rounds : ℕ}
    (hchain : Chain l (pre ++ s :: (done ++ c :: (rest ++ post))))
    (hright : (c :: rest).getLast? = some right) (hm : l.content s = some m)
    (hy : l.content c = some y) (hrest : rest.map l.content = ys.map some)
    (hrounds : rest.length < rounds) :
    ∃ l', quickSortLoop less (some s) (some right) rounds l (some c) = .ok (some (some right, l')) ∧
      SameShape l l' ∧ l'.content s = some (carry (before less) m (y :: ys)).1 ∧
      (c :: rest).map l'.content = (carry (before less) m (y :: ys)).2.map some ∧
      ∀ a, a ≠ s → a ∉ c :: rest → l'.content a = l.content a := by
  induction rest generalizing l done c m y ys rounds with
  | nil =>
    obtain ⟨rounds, rfl⟩ := Nat.exists_eq_add_one.mpr hrounds
    obtain ⟨l₁, hrun, hsame, hs, hc, hother⟩ := round_spec less hchain hm hy
    obtain rfl : c = right := Option.some_inj.mp hright
    obtain rfl : ys = [] := List.map_eq_nil_iff.mp hrest.symm
    rw [if_pos rfl] at hrun
    refine ⟨l₁, hrun, hsame, ?_, ?_, ?_⟩
    · rw [hs, carry]
      split <;> rfl
    · rw [List.map_singleton, hc, carry]
      split <;> rfl
    · intro a has hac
      exact hother a has (List.ne_of_not_mem_cons hac)
  | cons d rest ih =>
    obtain ⟨rounds, rfl⟩ := Nat.exists_eq_add_one.mpr (Nat.zero_lt_of_lt hrounds)
    cases ys with
    | nil => cases hrest
    | cons z zs =>
      rw [List.map_cons, List.map_cons, List.cons.injEq] at hrest
      obtain ⟨hz, hrest⟩ := hrest
      obtain ⟨l₁, hrun, hsame, hs, hc, hother⟩ := round_spec less hchain hm hy
      have hnodup : (s :: c :: d :: rest).Nodup :=
        Chain.nodup_rest hchain
      simp only [List.nodup_cons, List.mem_cons, not_or] at hnodup
      obtain ⟨⟨hsc, hsd, hsr⟩, ⟨hcd, hcr⟩, hdr, -⟩ := hnodup
      have hright' : (d :: rest).getLast? = some right := by
        rw [← hright, List.getLast?_cons_cons]
      have hne : some c ≠ some right := by
        rintro heq
        have hmem := List.mem_of_getLast? hright'
        rw [← Option.some_inj.mp heq, List.mem_cons] at hmem
        exact hmem.elim hcd hcr
      rw [if_neg hne] at hrun
      -- the other nodes have not changed in this round
      have hz₁ : l₁.content d = some z := by
        rw [hother d (Ne.symm hsd) (Ne.symm hcd), hz]
      have hrest₁ : rest.map l₁.content = zs.map some := by
        rw [← hrest]
        refine List.map_congr_left fun a ha => hother a ?_ ?_
        · exact fun has => hsr (has ▸ ha)
        · exact fun hac => hcr (hac ▸ ha)
      have hchain₁ : Chain l₁ (pre ++ s :: ((done ++ [c]) ++ d :: (rest ++ post))) := by
        simpa using hchain.of_sameShape hsame
      obtain ⟨l', hrun', hsame', hs', hmap', hother'⟩ :=
        ih hchain₁ hright' hs hz₁ hrest₁ (by simpa using hrounds)
      have hc' : l'.content c = l₁.content c :=
        hother' c (Ne.symm hsc) (by simp [hcd, hcr])
      refine ⟨l', hrun.trans hrun', hsame.trans hsame', ?_, ?_, ?_⟩
      · rw [hs']
        conv_rhs => rw [carry]
        split <;> rfl
      · rw [List.map_cons, hmap', hc', hc]
        conv_rhs => rw [carry]
        split <;> rfl
      · intro a has hac
        rw [List.mem_cons, not_or] at hac
        rw [hother' a has hac.2, hother a has hac.1]

/-- **The pass and the exchange after it**: the greatest item comes to the right end, and
the others are left in front of it. -/
theorem pass_spec (less : α → α → ℕ → Bool) {pre t post : List Addr} {s r : Addr}
    {x : α × ℕ} {ys : List (α × ℕ)} {rounds : ℕ}
    (hchain : Chain l (pre ++ s :: (t ++ r :: post))) (hx : l.content s = some x)
    (hys : (t ++ [r]).map l.content = ys.map some) (hrounds : t.length < rounds) :
    ∃ l₁ l₂, quickSortLoop less (some s) (some r) rounds l (t ++ r :: post).head? =
        .ok (some (some r, l₁)) ∧ l₁.swap (some s) (some r) = .ok l₂ ∧ SameShape l l₂ ∧
      (s :: t).map l₂.content = (lastFirst (carry (before less) x ys).2).map some ∧
      l₂.content r = some (carry (before less) x ys).1 ∧
      ∀ a, a ∉ s :: (t ++ [r]) → l₂.content a = l.content a := by
  obtain ⟨c, rest, hrest⟩ : ∃ c rest, t ++ [r] = c :: rest :=
    List.exists_cons_of_ne_nil (by simp)
  have happend : t ++ r :: post = c :: (rest ++ post) := by
    rw [← List.cons_append, ← hrest, List.append_assoc, List.singleton_append]
  have hright : (c :: rest).getLast? = some r := by
    rw [← hrest, List.getLast?_concat]
  have hlen : rest.length < rounds := by
    have hlength := congrArg List.length hrest
    simp only [List.length_append, List.length_cons, List.length_nil] at hlength
    omega
  rw [hrest] at hys
  cases ys with
  | nil => cases hys
  | cons y ys =>
    rw [List.map_cons, List.map_cons, List.cons.injEq] at hys
    obtain ⟨hy, hys⟩ := hys
    have hchain₀ : Chain l (pre ++ s :: ([] ++ c :: (rest ++ post))) := by
      rwa [List.nil_append, ← happend]
    obtain ⟨l₁, hrun, hsame, hs, hmap, hother⟩ :=
      quickSortLoop_spec less hchain₀ hright hx hy hys hlen
    have hnodup : (s :: (t ++ [r])).Nodup := by
      rw [hrest]
      exact Chain.nodup_rest hchain₀
    rw [List.nodup_cons, List.nodup_append] at hnodup
    obtain ⟨hsr, -, -, htr⟩ := hnodup
    -- the items behind the first node, the last of them apart
    rw [← hrest] at hmap hother
    obtain ⟨zs, z, hzs⟩ := exists_carry_concat (before less) x y ys
    rw [hzs, List.map_append, List.map_append] at hmap
    obtain ⟨ht, hr⟩ := List.append_inj' hmap rfl
    rw [List.map_singleton, List.map_singleton, List.cons.injEq] at hr
    have hsame₁ := hchain.of_sameShape hsame
    obtain ⟨ns, hns, -⟩ := hsame₁.node _ _ _ rfl
    obtain ⟨nr, hnr, -⟩ := hsame₁.node (pre ++ s :: t) r post (by simp)
    have hsr' : s ≠ r := by
      rintro rfl
      exact hsr (by simp)
    obtain ⟨l₂, hswap, hsame₂, hs₂, hr₂, hother₂⟩ := swap_spec hsr' hns hnr
    refine ⟨l₁, l₂, ?_, hswap, hsame.trans hsame₂, ?_, hr₂.trans hs, ?_⟩
    · rw [happend]
      exact hrun
    · rw [hzs, lastFirst_append, List.map_cons, List.map_cons, hs₂, hr.1, ← ht]
      congr 1
      refine List.map_congr_left fun a ha => hother₂ a ?_ (htr a ha r (by simp))
      rintro rfl
      exact hsr (by simp [ha])
    · intro a ha
      rw [List.mem_cons, not_or] at ha
      have har : a ≠ r := by
        rintro rfl
        exact ha.2 (by simp)
      rw [hother₂ a ha.1 har, hother a ha.1 ha.2]

/-! ### The recursion -/

/-- The nodes in front of the right end are sorted next. -/
theorem apart_front {pre t post : List Addr} {s r : Addr}
    (hchain : Chain l (pre ++ s :: (t ++ r :: post))) :
    l.apart (some s) (s :: t).getLast? = .ok true := by
  obtain ⟨ns, hns, -, hprev⟩ := hchain.node _ _ _ rfl
  obtain ⟨u, p, hup⟩ : ∃ u p, s :: t = u ++ [p] :=
    ⟨(s :: t).dropLast, (s :: t).getLast (by simp), (List.dropLast_append_getLast _).symm⟩
  have hchain' : Chain l ((pre ++ u) ++ p :: (r :: post)) := by
    have hids : pre ++ s :: (t ++ r :: post) = (pre ++ u) ++ p :: (r :: post) := by
      rw [← List.cons_append, hup]
      simp
    rwa [hids] at hchain
  obtain ⟨np, hnp, hnext, -⟩ := hchain'.node _ _ _ rfl
  have hnodup := hchain.nodup
  rw [List.nodup_append, List.nodup_cons] at hnodup
  obtain ⟨-, ⟨hs, -⟩, hpre⟩ := hnodup
  have hp : p ∈ s :: (t ++ r :: post) := by
    have hmem : p ∈ s :: t := by simp [hup]
    exact List.mem_append_left (r :: post) hmem
  have hfirst : ns.prev ≠ some p := by
    intro heq
    exact hpre p (List.mem_of_getLast? (hprev.symm.trans heq)) p hp rfl
  have hsecond : np.next ≠ some s := by
    intro heq
    have hrs := Option.some_inj.mp (hnext.symm.trans heq)
    exact hs (by simp [hrs])
  have hlast : (s :: t).getLast? = some p := by simp [hup]
  rw [hlast]
  simp [apart, deref, hns, hnp, bind, Except.bind, hfirst, hsecond, pure, Except.pure]

/-- Those behind it are not. -/
theorem apart_behind {pre post : List Addr} {r q : Addr}
    (hchain : Chain l (pre ++ r :: q :: post)) : l.apart (some q) (some r) = .ok false := by
  have hchain' : Chain l ((pre ++ [r]) ++ q :: post) := by simpa using hchain
  obtain ⟨nq, hnq, -, hprev⟩ := hchain'.node _ _ _ rfl
  have hprev' : nq.prev = some r := by simpa using hprev
  simp [apart, deref, hnq, bind, Except.bind, hprev', pure, Except.pure]

/-- **The recursion** goes into the nodes in front of the right end, and only there. -/
theorem quickSortList_run {rounds : ℕ} {pre t post : List Addr} {s r : Addr}
    {l₁ l₂ l₃ : CList α} (hchain : Chain l (pre ++ s :: (t ++ r :: post)))
    (hloop : quickSortLoop less (some s) (some r) rounds l (t ++ r :: post).head? =
      .ok (some (some r, l₁)))
    (hswap : l₁.swap (some s) (some r) = .ok l₂) (hsame : SameShape l l₂)
    (hrec : quickSortList less rounds l₂ (some s) (s :: t).getLast? = .ok (some l₃))
    (hsame₃ : SameShape l₂ l₃) :
    quickSortList less (rounds + 1) l (some s) (some r) = .ok (some l₃) := by
  have hchain₂ := hchain.of_sameShape hsame
  have hchain₃ := hchain₂.of_sameShape hsame₃
  obtain ⟨ns, hns, hnext, -⟩ := hchain.node _ _ _ rfl
  obtain ⟨nr, hnr, -, hprev⟩ := hchain₂.node (pre ++ s :: t) r post (by simp)
  obtain ⟨nr', hnr', hnext', -⟩ := hchain₃.node (pre ++ s :: t) r post (by simp)
  rw [List.getLast?_append_of_ne_nil _ (by simp)] at hprev
  have hsr : some s ≠ some r := by
    intro heq
    have hnodup := hchain.nodup
    rw [List.nodup_append, List.nodup_cons] at hnodup
    exact hnodup.2.1.1 (by simp [Option.some_inj.mp heq])
  have hpart : (s :: t).getLast? ≠ none := by simp
  have hfront := apart_front hchain₂
  rw [quickSortList, if_neg hsr]
  simp only [deref, hns, hnext, hloop, hswap, hnr, hprev, bind, Except.bind, if_neg hpart, hfront,
    if_true, hrec, hnr', hnext']
  cases post with
  | nil => rfl
  | cons q post =>
    have hids : pre ++ s :: (t ++ r :: q :: post) = (pre ++ s :: t) ++ r :: q :: post := by simp
    rw [hids] at hchain₃
    rw [List.head?_cons, if_neg (by simp), apart_behind hchain₃]
    rfl

/-- **A part is sorted**, the nodes around it keep their items. -/
theorem quickSortList_spec (less : α → α → ℕ → Bool) {rounds : ℕ} {pre seg post : List Addr}
    {xs : List (α × ℕ)} (hchain : Chain l (pre ++ (seg ++ post))) (hseg : seg ≠ [])
    (hxs : seg.map l.content = xs.map some) (hrounds : seg.length ≤ rounds) :
    ∃ l', quickSortList less rounds l seg.head? seg.getLast? = .ok (some l') ∧ SameShape l l' ∧
      seg.map l'.content = (maxSort (before less) xs).map some ∧
      ∀ a, a ∉ seg → l'.content a = l.content a := by
  induction rounds generalizing l seg post xs with
  | zero => exact absurd (List.length_eq_zero_iff.mp (Nat.le_zero.mp hrounds)) hseg
  | succ rounds ih =>
    obtain ⟨s, rest, rfl⟩ := List.exists_cons_of_ne_nil hseg
    cases xs with
    | nil => cases hxs
    | cons x ys =>
      rw [List.map_cons, List.map_cons, List.cons.injEq] at hxs
      obtain ⟨hx, hys⟩ := hxs
      rw [maxSort_cons]
      rcases List.eq_nil_or_concat rest with rfl | ⟨t, r, rfl⟩
      · obtain rfl : ys = [] := List.map_eq_nil_iff.mp hys.symm
        refine ⟨l, ?_, .refl l, ?_, fun _ _ => rfl⟩
        · simp [quickSortList]
        · simpa [carry, lastFirst, maxSort] using hx
      · rw [List.concat_eq_append] at hys hchain hrounds ⊢
        have hchain' : Chain l (pre ++ s :: (t ++ r :: post)) := by simpa using hchain
        have hlen : t.length < rounds := by
          simp only [List.length_cons, List.length_append, List.length_nil] at hrounds
          omega
        obtain ⟨l₁, l₂, hloop, hswap, hsame, hfront, hlast, hother⟩ :=
          pass_spec less hchain' hx hys hlen
        have hchain₂ := hchain'.of_sameShape hsame
        -- the part in front of the right end
        have hpart : Chain l₂ (pre ++ (s :: t ++ r :: post)) := hchain₂
        obtain ⟨l₃, hrec, hsame₃, hmap₃, hother₃⟩ :=
          ih hpart (by simp) hfront hlen
        have hchain₀ : Chain l (pre ++ s :: ([] ++ (t ++ [r] ++ post))) := by simpa using hchain
        have hnodup : (s :: t ++ [r]).Nodup := hchain₀.nodup_rest
        rw [List.nodup_append] at hnodup
        have hr : r ∉ s :: t := fun hmem => hnodup.2.2 r hmem r (by simp) rfl
        refine ⟨l₃, ?_, hsame.trans hsame₃, ?_, ?_⟩
        · have hends : (s :: (t ++ [r])).getLast? = some r := by
            rw [← List.cons_append, List.getLast?_concat]
          rw [List.head?_cons, hends]
          exact quickSortList_run hchain' hloop hswap hsame hrec hsame₃
        · rw [← List.cons_append, List.map_append, List.map_append, hmap₃, List.map_singleton,
            hother₃ r hr, hlast, List.map_singleton]
        · intro a ha
          have hfrontOf : a ∉ s :: t := fun hmem => ha (List.mem_append_left [r] hmem)
          rw [hother₃ a hfrontOf, hother a ha]

/-- **Sorting** a list with its nodes in order: the items are those of `maxSort`. -/
theorem sort_spec (less : α → α → ℕ → Bool) {ids : List Addr} {xs : List (α × ℕ)}
    (h : Counted l ids) (hxs : ids.map l.content = xs.map some) {rounds : ℕ} (hrounds : l.length ≤ rounds) :
    ∃ l', l.sort less rounds = .ok (some l') ∧ SameShape l l' ∧
      ids.map l'.content = (maxSort (before less) xs).map some := by
  cases ids with
  | nil =>
    obtain rfl : xs = [] := List.map_eq_nil_iff.mp hxs.symm
    refine ⟨l, ?_, .refl l, ?_⟩
    · rw [sort, h.empty_eq]
      rfl
    · rw [maxSort]
      rfl
  | cons a ids =>
    have hfirst : l.first = (a :: ids).head? := h.repr.first
    have hlast : l.last = (a :: ids).getLast? := h.repr.last
    have hchain : Chain l (a :: ids) := ⟨h.repr.chain.nodup, h.repr.chain.node⟩
    have hchain : Chain l ([] ++ (a :: ids ++ [])) := by simpa using hchain
    obtain ⟨l', hrun, hsame, hmap, -⟩ :=
      quickSortList_spec less hchain (by simp) hxs (h.le.trans hrounds)
    refine ⟨l', ?_, hsame, hmap⟩
    rw [sort, h.empty_eq, hfirst, hlast, if_pos (by simp)]
    exact hrun

end CList

/-! ### Lists that are built -/

variable {l : CList α}

/-- **Sorting sorts** every list that calls on a new list lead to, their allocations
succeeding or not, by every comparison that is a strict order whatever size it is given: the
loops end, the nodes and the links stay, and their items are permuted so that none is less
than one in front of it. -/
theorem list_sort_sorts {lt : α → α → Prop} [IsStrictOrder α lt] {less : α → α → ℕ → Bool}
    (hless : ∀ x y size, less x y size = true ↔ lt x y)
    (hreach : Reachable BuildCall.step CList.new l) {rounds : ℕ} (hrounds : l.length ≤ rounds) :
    ∃ (l' : CList α) (ids : List Addr) (xs ys : List (α × ℕ)),
      l.sort less rounds = .ok (some l') ∧ l.SameShape l' ∧ l.Counted ids ∧ l'.Counted ids ∧
      ids.map l.content = xs.map some ∧ ids.map l'.content = ys.map some ∧ ys.Perm xs ∧
      ys.Pairwise fun p q => ¬ lt q.1 p.1 := by
  obtain ⟨ids, hcounted⟩ : ∃ ids, l.Counted ids := by
    refine hreach.invariant (P := fun l => ∃ ids, l.Counted ids) ⟨[], CList.repr_new.counted⟩ ?_
    rintro l₁ call l₂ ⟨ids, h⟩ hstep
    exact h.step hstep
  obtain ⟨xs, hxs⟩ := exists_contents hcounted.repr
  change ids.map l.content = xs.map some at hxs
  obtain ⟨l', hrun, hsame, hmap⟩ := CList.sort_spec less hcounted hxs hrounds
  -- the comparison of items is the order of their data
  have hbefore : ∀ p q : α × ℕ, before less p q = true ↔ lt p.1 q.1 :=
    fun p q => hless p.1 q.1 _
  have hirrefl : ∀ p, ¬ before less p p = true := by
    intro p
    rw [hbefore]
    exact irrefl_of lt p.1
  have htrans : ∀ p q r, before less p q = true → before less q r = true →
      before less p r = true := by
    intro p q r hpq hqr
    rw [hbefore] at *
    exact trans_of lt hpq hqr
  refine ⟨l', ids, xs, maxSort (before less) xs, hrun, hsame, hcounted,
    hcounted.of_sameShape hsame, hxs, hmap, perm_maxSort _ xs, ?_⟩
  refine (pairwise_maxSort hirrefl htrans xs).imp ?_
  intro p q hnot hlt
  exact hnot ((hbefore q p).mpr hlt)

/-- Three numbers, of which the second one is deleted and another one put in front. -/
theorem list_sort_sorts_three :
    ∃ (l l' : CList ℕ) (ids : List Addr) (xs ys : List (ℕ × ℕ)),
      Reachable BuildCall.step CList.new l ∧ l.length = 3 ∧
      l.sort (fun x y _ => decide (x < y)) 3 = .ok (some l') ∧ l.SameShape l' ∧ l.Counted ids ∧
      l'.Counted ids ∧ ids.map l.content = xs.map some ∧ ids.map l'.content = ys.map some ∧
      ys.Perm xs ∧ ys.Pairwise fun p q => ¬ q.1 < p.1 := by
  obtain ⟨l, hreach, hl⟩ : ∃ l : CList ℕ, Reachable BuildCall.step CList.new l ∧
      (l.length == 3) = true :=
    Reachable.of_any [.call (.change (.append 5 4)), .call (.change (.append 7 4)),
      .call (.change (.append 6 8)), .call .next, .call (.change (.delete 1)),
      .call (.change (.prepend 9 4))] (by decide +kernel)
  have hlength := eq_of_beq hl
  have hless : ∀ x y size : ℕ, (fun x y (_ : ℕ) => decide (x < y)) x y size = true ↔ x < y :=
    fun _ _ _ => decide_eq_true_iff
  obtain ⟨l', ids, xs, ys, hsort⟩ := list_sort_sorts hless hreach hlength.le
  exact ⟨l, l', ids, xs, ys, hreach, hlength, hsort⟩

end C2Hat
