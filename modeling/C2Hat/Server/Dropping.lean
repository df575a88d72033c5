import C2Hat.Server.Threads

/-!
# Dropping a client

`Server_dropClient` does not delete the entry it is given: it looks the thread identifier
of the client up in the list and deletes the entry it finds.  The comparison returns the
difference of two identifiers of 64 bits as an `int`, so that it finds the first entry
whose identifier has the same low half.

## Main definitions

* `Server.dropClient` — the function, on a list of clients.
* `DropsItself` — the entry that goes is that of the client.
* `SameLow` — two identifiers agree in their low half.

## Main results

* `findByThreadID_eq_zero` — **the comparison is zero when the low halves agree.**
* `dropsItself_iff` — **a client drops only itself exactly when no entry in front of its
  own has an identifier with the same low half.**
-/

namespace C2Hat

open Clib

/-! ### The function -/

/-- `Server_dropClient(client)`, for the entry with a handle: the list afterwards.  Here
the connection is only marked; freeing one that has been freed is the fault of
`ClientThread.next`. -/
def Server.dropClient (l : ClientList) (h : Addr) : Except Fault ClientList :=
  match l.data h with
  | none => .error .useAfterFree
  | some client =>
    let closed := l.modify h fun c => { c with ssl := .freed }
    -- a client without a thread is in no list
    if client.threadID = 0 then .ok closed
    else
      match l.search fun c => c.findByThreadID client.threadID == 0 with
      | none => .ok l
      | some index => .ok (closed.delete index)

/-- The locked section of a thread does the same to the list of the server. -/
theorem dropClient_of_unlink {s : State} {l : ClientList} {h : Addr} {c : Client} {t : Thread}
    {site : Site} {e : Effect} {pc : Pc} (hl : s.clients = some l) (hc : l.data h = some c)
    (hid : c.threadID ≠ 0) (hpc : t.pc = .unlink site c.threadID) (hssl : c.ssl = .open)
    (hnext : ClientThread.next s h t .go = some (e, pc)) :
    ∃ l', Server.dropClient l h = .ok l' ∧ (s.apply e).clients = some l' := by
  have hentry : s.entry h = some c := by rw [State.entry, hl]; exact hc
  simp only [ClientThread.next, hpc, State.locked, hl] at hnext
  simp only [Server.dropClient, hc, if_neg hid]
  split at hnext
  · cases hsearch : l.search fun c' => c'.findByThreadID c.threadID == 0 with
    | none =>
      simp only [hsearch] at hnext
      cases hnext
      exact ⟨l, rfl, hl⟩
    | some index =>
      simp only [hsearch, State.withClient, hentry, hssl] at hnext
      cases hnext
      refine ⟨_, rfl, ?_⟩
      simp only [State.apply, hl, Option.map_some]
  · cases hnext

/-! ### The comparison -/

/-- Two thread identifiers agree in their low 32 bits. -/
def SameLow (a b : BitVec 64) : Prop := a.toNat % 2 ^ 32 = b.toNat % 2 ^ 32

/-- **The comparison looks at the low halves only.** -/
theorem findByThreadID_eq_zero (c : Client) (threadID : BitVec 64) :
    c.findByThreadID threadID = 0 ↔ SameLow c.threadID threadID := by
  have hc := c.threadID.isLt
  have ht := threadID.isLt
  rw [Client.findByThreadID, ← BitVec.toNat_inj, BitVec.toNat_setWidth, BitVec.toNat_sub]
  show _ = 0 ↔ _ % _ = _ % _
  omega

/-- An entry that the search takes for the client. -/
theorem found_iff (l : ClientList) (threadID : BitVec 64) (a : Addr) :
    ((l.data a).any fun c => c.findByThreadID threadID == 0) = true ↔
      ∃ d, l.data a = some d ∧ SameLow d.threadID threadID := by
  simp only [Option.any_eq_true, beq_iff_eq, findByThreadID_eq_zero]

/-! ### The entry that goes -/

/-- The identifiers of the clients in a list: none is zero, and no two are equal. -/
structure DistinctIDs (l : ClientList) : Prop where
  nonzero : ∀ a c, l.data a = some c → c.threadID ≠ 0
  distinct : ∀ a b c d, l.data a = some c → l.data b = some d → c.threadID = d.threadID → a = b

/-- The entry of the client is removed, and the others keep their order and their data. -/
def DropsItself (l : ClientList) (h : Addr) : Prop :=
  ∃ l', Server.dropClient l h = .ok l' ∧ l'.ids = l.ids.erase h ∧
    ∀ a ∈ l'.ids, l'.data a = l.data a

section Dropped

variable {l : ClientList} {h : Addr} {c : Client} {l₁ l₂ : List Addr}

/-- Nothing in front of the entry is taken for it. -/
theorem dropsItself_of_first (hids : l.ids = l₁ ++ h :: l₂) (hc : l.data h = some c)
    (hid : c.threadID ≠ 0)
    (hfirst : ∀ a ∈ l₁, ∀ d, l.data a = some d → ¬ SameLow d.threadID c.threadID) :
    DropsItself l h := by
  have hnodup := l.repr.nodup
  rw [hids, List.nodup_middle, List.nodup_cons, List.mem_append, not_or] at hnodup
  have hsearch : l.search (fun c' => c'.findByThreadID c.threadID == 0) = some l₁.length := by
    have hbefore : l₁.findIdx? (fun a => (l.data a).any fun c' =>
        c'.findByThreadID c.threadID == 0) = none := by
      rw [List.findIdx?_eq_none_iff]
      intro a ha
      rw [Bool.eq_false_iff, ne_eq, found_iff]
      rintro ⟨d, hd, hlow⟩
      exact hfirst a ha d hd hlow
    have hself : ((l.data h).any fun c' => c'.findByThreadID c.threadID == 0) = true :=
      (found_iff l c.threadID h).mpr ⟨c, hc, rfl⟩
    rw [Linked.search, hids, List.findIdx?_append, hbefore, List.findIdx?_cons, hself]
    simp
  refine ⟨(l.modify h fun c => { c with ssl := .freed }).delete l₁.length, ?_, ?_, ?_⟩
  · simp only [Server.dropClient, hc, if_neg hid, hsearch]
  · rw [Linked.ids_delete, Linked.ids_modify, hids,
      List.erase_append_right _ hnodup.1.1, List.erase_cons_head,
      List.eraseIdx_append_of_length_le le_rfl]
    simp
  · intro a ha
    rw [Linked.ids_delete, Linked.ids_modify, hids, List.eraseIdx_append_of_length_le le_rfl] at ha
    have hne : a ≠ h := by
      rintro rfl
      simp only [Nat.sub_self, List.eraseIdx_zero, List.tail_cons, List.mem_append] at ha
      exact ha.elim hnodup.1.1 hnodup.1.2
    rw [Linked.data_delete, Linked.ids_modify, hids]
    simp [hne, hne.symm]

/-- An entry in front that is taken for the client goes instead. -/
theorem not_dropsItself_of_earlier (hids : l.ids = l₁ ++ h :: l₂) (hc : l.data h = some c)
    (hid : c.threadID ≠ 0) {a : Addr} {d : Client} (ha : a ∈ l₁) (hd : l.data a = some d)
    (hlow : SameLow d.threadID c.threadID) : ¬ DropsItself l h := by
  rintro ⟨l', hdrop, hids', -⟩
  obtain ⟨i, hi⟩ : ∃ i, l₁.findIdx? (fun a => (l.data a).any fun c' =>
      c'.findByThreadID c.threadID == 0) = some i := by
    rw [← Option.isSome_iff_exists, List.findIdx?_isSome, List.any_eq_true]
    exact ⟨a, ha, (found_iff l c.threadID a).mpr ⟨d, hd, hlow⟩⟩
  have hsearch : l.search (fun c' => c'.findByThreadID c.threadID == 0) = some i := by
    rw [Linked.search, hids, List.findIdx?_append, hi]
    rfl
  have hlt : i < l₁.length := (List.findIdx?_eq_some_iff_findIdx_eq.mp hi).1
  simp only [Server.dropClient, hc, if_neg hid, hsearch] at hdrop
  cases hdrop
  -- the entry of the client is still there
  have hmem : h ∈ l.ids.erase h := by
    rw [← hids', Linked.ids_delete, Linked.ids_modify, hids, List.eraseIdx_append_of_lt_length hlt]
    simp
  exact l.repr.nodup.not_mem_erase hmem

end Dropped

/-- **A client drops only itself** exactly when no entry in front of its own has an
identifier with the same low half; and the comparison is zero for its identifier only
exactly when no other entry at all has one. -/
theorem dropsItself_iff {l : ClientList} {h : Addr} {c : Client} (hc : l.data h = some c)
    (hdistinct : DistinctIDs l) :
    (DropsItself l h ↔ ∀ a ∈ l.ids.takeWhile (· != h), ∀ d, l.data a = some d →
      ¬ SameLow d.threadID c.threadID) ∧
    ((∀ a d, l.data a = some d → d.findByThreadID c.threadID = 0 → d.threadID = c.threadID) ↔
      ∀ a d, l.data a = some d → a ≠ h → ¬ SameLow d.threadID c.threadID) := by
  have hid := hdistinct.nonzero h c hc
  constructor
  · obtain ⟨l₁, l₂, hids, hh⟩ := List.eq_append_cons_of_mem (l.mem_ids_iff.mpr ⟨c, hc⟩)
    have hfront : l.ids.takeWhile (· != h) = l₁ := by
      rw [hids, List.takeWhile_append_of_pos, List.takeWhile_cons_of_neg, List.append_nil]
      · simp
      · intro a ha
        have : a ≠ h := fun he => hh (he ▸ ha)
        simpa using this
    rw [hfront]
    constructor
    · intro hdrops a ha d hd hlow
      exact not_dropsItself_of_earlier hids hc hid ha hd hlow hdrops
    · intro hfirst
      exact dropsItself_of_first hids hc hid hfirst
  · constructor
    · intro hzero a d hd hne hlow
      have heq := hzero a d hd ((findByThreadID_eq_zero d c.threadID).mpr hlow)
      exact hne (hdistinct.distinct a h d c hd hc heq)
    · intro hother a d hd hzero
      by_cases hne : a = h
      · subst hne
        rw [Option.some.inj (hd.symm.trans hc)]
      · exact absurd ((findByThreadID_eq_zero d c.threadID).mp hzero) (hother a d hd hne)

/-- A client with an identifier. -/
def withID (threadID : BitVec 64) : Client := { Acceptor.newClient 7 with threadID := threadID }

/-- Two clients, in this order; their handles are 0 and 1. -/
def pair (a b : BitVec 64) : ClientList := (Linked.new.append (withID a)).append (withID b)

theorem data_pair (a b : BitVec 64) (h : Addr) (c : Client) (hc : (pair a b).data h = some c) :
    (h = 0 ∧ c = withID a) ∨ (h = 1 ∧ c = withID b) := by
  have hfresh : ((Linked.new : ClientList).append (withID a)).list.fresh = 1 := rfl
  rw [pair, Linked.data_append, hfresh, Linked.data_append] at hc
  split at hc
  · next h1 => exact Or.inr ⟨h1, (Option.some.inj hc).symm⟩
  · split at hc
    · next h0 => exact Or.inl ⟨h0, (Option.some.inj hc).symm⟩
    · cases hc

theorem distinctIDs_pair {a b : BitVec 64} (ha : a ≠ 0) (hb : b ≠ 0) (hab : a ≠ b) :
    DistinctIDs (pair a b) where
  nonzero h c hc := by
    rcases data_pair a b h c hc with ⟨-, rfl⟩ | ⟨-, rfl⟩
    · exact ha
    · exact hb
  distinct h h' c c' hc hc' heq := by
    rcases data_pair a b h c hc with ⟨rfl, rfl⟩ | ⟨rfl, rfl⟩ <;>
      rcases data_pair a b h' c' hc' with ⟨rfl, rfl⟩ | ⟨rfl, rfl⟩
    · rfl
    · exact absurd heq hab
    · exact absurd heq.symm hab
    · rfl

/-- Identifiers 11 and 12: the second client drops itself. -/
theorem dropsItself_twelve : DropsItself (pair 11 12) 1 := by
  have hdistinct : DistinctIDs (pair 11 12) :=
    distinctIDs_pair (by decide) (by decide) (by decide)
  refine (dropsItself_iff (c := withID 12) rfl hdistinct).1.mpr ?_
  intro a ha d hd hlow
  rcases data_pair 11 12 a d hd with ⟨-, rfl⟩ | ⟨rfl, -⟩
  · exact absurd hlow (by unfold SameLow; decide)
  · exact absurd ha (by decide)

/-- Identifiers 1 and 2 ^ 32 + 1: dropping the second client deletes the entry of the
first one. -/
theorem not_dropsItself_lowHalf :
    DistinctIDs (pair 1 4294967297) ∧
      (∃ l', Server.dropClient (pair 1 4294967297) 1 = .ok l' ∧ l'.ids = [1]) ∧
      ¬ DropsItself (pair 1 4294967297) 1 ∧
      (withID 1).findByThreadID 4294967297 = 0 := by
  have hids : (pair 1 4294967297).ids = [0] ++ 1 :: [] := rfl
  have hfirst : (pair 1 4294967297).data 0 = some (withID 1) := rfl
  have hsecond : (pair 1 4294967297).data 1 = some (withID 4294967297) := rfl
  have hlow : SameLow (withID 1).threadID (withID 4294967297).threadID := by
    unfold SameLow
    decide
  refine ⟨distinctIDs_pair (by decide) (by decide) (by decide), ⟨_, rfl, by decide⟩, ?_,
    by decide⟩
  exact not_dropsItself_of_earlier hids hsecond (by decide) (List.mem_singleton.mpr rfl) hfirst hlow

end C2Hat
