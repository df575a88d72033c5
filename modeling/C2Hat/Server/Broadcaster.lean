import C2Hat.Server.Invariants

/-!
# The broadcast thread

The broadcast thread walks the list of clients with the cursor that is part of the
list, fetches each handle under the lock, and uses the handle when the lock has been
released.  Client threads remove their entries at any time, and a failed delivery
ends in `Server_dropClient`, which ends the calling thread.

Each section states under which condition on the steps the thread does what it is
there for: it keeps running, and it uses the handles of registered clients only.

## Main definitions

* `SendSucceeds`, `KeepsHandle` — the conditions on a step.

## Main results

* `broadcaster_survives` — **without a failed delivery the thread runs on.**
* `handle_registered` — **a handle in use belongs to a registered client**, unless
  its entry, or the entry under the cursor, is removed meanwhile.
-/

namespace C2Hat

open Clib Runs

variable {s s' : State}

/-! ### Survival -/

/-- The broadcast thread is in its loop. -/
def BroadcastPc.looping : BroadcastPc → Bool
  | .drop _ _ | .unlink _ _ | .exited => false
  | _ => true

/-- The step is not a failed delivery: in `Server_send` the broadcast thread always
gets `SSL_write` to accept something. -/
def SendSucceeds (s : State) (a : Action) : Bool :=
  match s.broadcast, a with
  | .write _ _ _, .broadcast (.wrote _) => true
  | .write _ _ _, .broadcast _ => false
  | _, _ => true

/-- The loop is left in the end only. -/
def Surviving (s : State) : Prop :=
  s.broadcast.looping = true ∨ (s.broadcast = .exited ∧ s.terminate = true)

theorem surviving_step {a : Action} (hs : Surviving s) (hsend : SendSucceeds s a = true)
    (hstep : StepTaken s a s') : Surviving s' := by
  cases hstep with
  | stop =>
    rcases hs with hs | hs
    · exact Or.inl hs
    · exact Or.inr ⟨hs.1, rfl⟩
  | acceptor _ _ =>
    unfold Surviving at hs ⊢
    simpa using hs
  | client _ _ =>
    unfold Surviving at hs ⊢
    simpa using hs
  | @broadcast b _ _ _ hpc hbc =>
    unfold Surviving at hs ⊢
    unfold SendSucceeds at hsend
    rw [hpc] at hs hsend
    cases hbc with
    | fault => simpa using hs
    | failed ha =>
      cases b with
      | wrote k => exact absurd rfl (ha k)
      | go | writeFailed => simp at hsend
    | terminated hterm => exact Or.inr ⟨rfl, by simpa using hterm⟩
    | freed | dropping | unlisted | removed => simp [BroadcastPc.looping] at hs
    | _ => exact Or.inl rfl

/-- The handle that the broadcast thread has fetched and uses. -/
def BroadcastPc.holds : BroadcastPc → Option Addr
  | .testNick _ h | .testSocket _ h | .write _ h _ => some h
  | _ => none

/-- The broadcast thread walks the list. -/
def BroadcastPc.walking : BroadcastPc → Bool
  | .check _ | .next _ | .testNick _ _ | .testSocket _ _ | .write _ _ _ | .drop _ _ => true
  | _ => false

/-- The index of the entry that a client's thread is about to delete. -/
def deletes (s : State) : Action → Option ℕ
  | .client h .go =>
    match s.threads h, s.clients with
    | some ⟨_, .unlink _ threadID⟩, some l => l.search fun c => c.findByThreadID threadID == 0
    | _, _ => none
  | _ => none

/-- The step deletes neither the entry that the broadcast thread uses nor, unless it
is the first one, the entry that it is going to fetch; and the list is not freed
under its feet. -/
def KeepsHandle (s : State) (a : Action) : Bool :=
  match a, deletes s a with
  | .acceptor _, _ => s.acceptor != .freeList || !s.broadcast.walking
  | _, some i => s.broadcast.holds != s.registered[i]? &&
      (i == 0 || !s.broadcast.walking || s.cursor != s.registered[i]?)
  | _, none => true

/-- The handle in use and, during the walk, the cursor belong to entries of the list. -/
structure HandleKept (s : State) : Prop where
  held : ∀ h, s.broadcast.holds = some h → h ∈ s.registered
  cursor : s.broadcast.walking = true → ∀ h, s.cursor = some h → h ∈ s.registered

theorem HandleKept.of_same (hs : HandleKept s)
    (hregistered : ∀ h ∈ s.registered, h ∈ s'.registered) (hcursor : s'.cursor = s.cursor)
    (hholds : ∀ h, s'.broadcast.holds = some h → s.broadcast.holds = some h)
    (hwalking : s'.broadcast.walking = true → s.broadcast.walking = true) : HandleKept s' where
  held h hh := hregistered h (hs.held h (hholds h hh))
  cursor hw h hh := hregistered h (hs.cursor (hwalking hw) h (hcursor ▸ hh))

theorem BroadcastPc.holds_of_not_walking {pc : BroadcastPc} (hpc : pc.walking = false) :
    pc.holds = none := by
  cases pc with
  | testNick | testSocket | write => cases hpc
  | _ => rfl

/-- An entry other than the one deleted stays. -/
theorem mem_eraseIdx_of_ne {l : List Addr} {i : ℕ} {h : Addr} (hh : h ∈ l)
    (hne : l[i]? ≠ some h) : h ∈ l.eraseIdx i := by
  obtain ⟨k, hk⟩ := List.mem_iff_getElem?.mp hh
  refine List.mem_eraseIdx_iff_getElem?.mpr ⟨k, ?_, hk⟩
  rintro rfl
  exact hne hk

/-- The entry behind another one is in the list. -/
theorem mem_registered_of_behind {l : ClientList} (hl : s.clients = some l) {l₁ l₂ : List Addr}
    {x h : Addr} (hids : l.ids = l₁ ++ x :: l₂) (hh : l₂.head? = some h) : h ∈ s.registered := by
  have hmem := List.mem_of_mem_head? hh
  simp [State.registered, hl, hids, hmem]

theorem HandleKept.acceptor (hs : HandleKept s) (hhandles : Handles s) {b : AcceptorAction}
    {e : Effect} {pc₀ pc : AcceptorPc} (hpc : s.acceptor = pc₀)
    (hkeep : KeepsHandle s (.acceptor b) = true) (hacc : Acceptor.Step s pc₀ e pc) :
    HandleKept { s.apply e with acceptor := pc } := by
  have same : e.onList = false → HandleKept { s.apply e with acceptor := pc } := by
    intro he
    obtain ⟨hregistered, hcursor, -⟩ := s.list_apply he
    exact hs.of_same (fun h hh => hregistered ▸ hh) hcursor (by simp) (by simp)
  cases hacc with
  | newList =>
    -- there was no list, so that no handle is in use
    obtain ⟨hnone, -⟩ := hhandles.unborn hpc
    have hnil : s.registered = [] := by simp [State.registered, hnone]
    refine ⟨fun h hh => ?_, fun _ h hh => by cases hh⟩
    have hmem := hs.held h hh
    rw [hnil] at hmem
    cases hmem
  | listFreed _ =>
    have hwalk : s.broadcast.walking = false := by simpa [KeepsHandle, hpc] using hkeep
    refine ⟨fun h hh => ?_, fun hw => ?_⟩
    · change s.broadcast.holds = some h at hh
      rw [BroadcastPc.holds_of_not_walking hwalk] at hh
      cases hh
    · change s.broadcast.walking = true at hw
      rw [hwalk] at hw
      cases hw
  | @appended socket l hl =>
    refine ⟨fun h hh => ?_, fun hw h hh => ?_⟩
    · change h ∈ (s.apply _).registered
      rw [State.registered_append hl]
      exact List.mem_append_left _ (hs.held h (by simpa using hh))
    · change (s.apply _).cursor = some h at hh
      change h ∈ (s.apply _).registered
      rw [State.cursor_append hl] at hh
      rw [State.registered_append hl]
      split at hh
      · cases hh
        simp
      · exact List.mem_append_left _ (hs.cursor (by simpa using hw) h hh)
  | @joined l l₁ l₂ x hl hids _ =>
    refine ⟨fun h hh => ?_, fun _ h hh => ?_⟩
    · change h ∈ (s.apply _).registered
      rw [State.registered_advance]
      exact hs.held h (by simpa using hh)
    · change (s.apply _).cursor = some h at hh
      change h ∈ (s.apply _).registered
      rw [State.cursor_advance hl] at hh
      rw [State.registered_advance]
      exact mem_registered_of_behind hl hids hh
  | joinedAll hl _ =>
    refine ⟨fun h hh => ?_, fun _ h hh => ?_⟩
    · change h ∈ (s.apply _).registered
      rw [State.registered_advance]
      exact hs.held h (by simpa using hh)
    · change (s.apply _).cursor = some h at hh
      rw [State.cursor_advance hl] at hh
      cases hh
  | _ => exact same rfl

theorem HandleKept.broadcast (hs : HandleKept s) (hempty : EmptyCursor s) {b : BroadcastAction}
    {e : Effect} {pc₀ pc : BroadcastPc} (hpc : s.broadcast = pc₀)
    (hbc : Broadcast.Step s pc₀ b e pc) : HandleKept { s.apply e with broadcast := pc } := by
  have same : e.onList = false → (∀ h, pc.holds = some h → pc₀.holds = some h) →
      (pc.walking = true → pc₀.walking = true) →
      HandleKept { s.apply e with broadcast := pc } := by
    intro he hholds hwalking
    obtain ⟨hregistered, hcursor, -⟩ := s.list_apply he
    exact hs.of_same (fun h hh => hregistered ▸ hh) hcursor (fun h hh => hpc ▸ hholds h hh)
      fun hw => hpc ▸ hwalking hw
  cases hbc with
  | popped _ => exact ⟨fun h hh => (by cases hh), fun hw => (by cases hw)⟩
  | @rewound item l hl =>
    refine ⟨fun h hh => (by cases hh), fun _ h hh => ?_⟩
    change (s.apply _).cursor = some h at hh
    change h ∈ (s.apply _).registered
    rw [State.cursor_rewind] at hh
    rw [State.registered_rewind]
    split at hh
    · next hnil =>
      rw [hempty hnil] at hh
      cases hh
    · exact List.mem_of_mem_head? hh
  | ended _ _ => exact ⟨fun h hh => (by cases hh), fun hw => (by cases hw)⟩
  | @fetched item l l₁ l₂ x hl hids hcursor =>
    refine ⟨fun h hh => ?_, fun _ h hh => ?_⟩
    · cases hh
      show _ ∈ (s.apply _).registered
      rw [State.registered_advance]
      simp [State.registered, hl, hids]
    · change (s.apply _).cursor = some h at hh
      show h ∈ (s.apply _).registered
      rw [State.cursor_advance hl] at hh
      rw [State.registered_advance]
      exact mem_registered_of_behind hl hids hh
  | removed _ _ _ => exact ⟨fun h hh => (by cases hh), fun hw => (by cases hw)⟩
  | _ =>
    refine same rfl (fun h hh => ?_) fun hw => ?_
    · first | exact hh | cases hh
    · first | rfl | exact hw

theorem deletes_of_removed {h : Addr} {me threadID : BitVec 64} {site : Site} {l : ClientList}
    {i : ℕ} (ht : s.threads h = some ⟨me, .unlink site threadID⟩) (hl : s.clients = some l)
    (hsearch : l.search (fun c => c.findByThreadID threadID == 0) = some i) :
    deletes s (.client h .go) = some i := by
  simp only [deletes, ht, hl, hsearch]

theorem HandleKept.client (hs : HandleKept s) {h₀ : Addr} {me : BitVec 64} {b : ClientAction}
    {e : Effect} {pc₀ pc : Pc} (ht : s.threads h₀ = some ⟨me, pc₀⟩)
    (hkeep : KeepsHandle s (.client h₀ b) = true) (hcl : ClientThread.Step s h₀ me pc₀ b e pc)
    (threads : Addr → Option Thread) : HandleKept { s.apply e with threads := threads } := by
  have same : e.onList = false → HandleKept { s.apply e with threads := threads } := by
    intro he
    obtain ⟨hregistered, hcursor, -⟩ := s.list_apply he
    exact hs.of_same (fun h hh => hregistered ▸ hh) hcursor (by simp) (by simp)
  cases hcl with
  | @removed site threadID l i hl hlock hsearch =>
    have hdel := deletes_of_removed ht hl hsearch
    simp only [KeepsHandle, hdel, Bool.and_eq_true, Bool.or_eq_true, bne_iff_ne, beq_iff_eq,
      Bool.not_eq_true'] at hkeep
    obtain ⟨hheld, hcursor⟩ := hkeep
    refine ⟨fun h hh => ?_, fun hw h hh => ?_⟩
    · change s.broadcast.holds = some h at hh
      show h ∈ (s.apply _).registered
      rw [State.registered_remove]
      exact mem_eraseIdx_of_ne (hs.held h hh) fun hi => hheld (hh.trans hi.symm)
    · change s.broadcast.walking = true at hw
      change (s.apply _).cursor = some h at hh
      show h ∈ (s.apply _).registered
      rw [State.registered_remove]
      rw [State.cursor_remove] at hh
      split at hh
      · next hfirst =>
        -- the cursor has moved to the second entry
        rw [hfirst.1]
        exact List.mem_eraseIdx_iff_getElem?.mpr ⟨1, by simp, hh⟩
      · next hnot =>
        refine mem_eraseIdx_of_ne (hs.cursor hw h hh) fun hi => ?_
        rcases hcursor with (hzero | hwalk) | hne
        · exact hnot ⟨hzero, List.ne_nil_of_mem (hs.cursor hw h hh)⟩
        · rw [hwalk] at hw
          cases hw
        · exact hne (hh.trans hi.symm)
  | _ => exact same rfl

theorem handleKept_of_reachable {n : ℕ}
    (hreach : Reachable (restrict step fun s a => KeepsHandle s a = true) (.init n) s) :
    HandleKept s := by
  refine hreach.invariant_restrict ⟨fun h hh => (by cases hh), fun hw => (by cases hw)⟩
    fun hr hs hkeep hstep => ?_
  cases step_taken hstep with
  | stop => exact ⟨hs.held, hs.cursor⟩
  | acceptor hpc hacc => exact hs.acceptor (handles_of_reachable hr) hpc hkeep hacc
  | broadcast hpc hbc => exact hs.broadcast (cursor_of_empty hr) hpc hbc
  | client ht hcl => exact hs.client ht hkeep hcl _

/-- **Broadcasts go only to registered clients** in every run whose steps leave the
entry in use, and the one under the cursor, in the list: whenever the broadcast
thread tests or sends to a client, the client is registered, and so is the one that
`List_next` is about to return. -/
theorem handle_registered {n : ℕ}
    (hreach : Reachable (restrict step fun s a => KeepsHandle s a = true) (.init n) s) :
    (∀ h, s.broadcast.holds = some h → h ∈ s.registered) ∧
      ∀ item, s.broadcast = .next item → ∀ h, s.cursor = some h → h ∈ s.registered := by
  have hs := handleKept_of_reachable hreach
  refine ⟨hs.held, fun item hnext => hs.cursor ?_⟩
  rw [hnext]
  rfl

/-- Joe quits before his announcement is popped, and the broadcast thread sends it to
Ann. -/
theorem handle_registered_ann :
    ∃ s, Reachable (restrict step fun s a => KeepsHandle s a = true) (.init 2) s ∧
      s.broadcast.holds = some 1 ∧ 0 ∉ s.registered ∧ 1 ∈ s.registered := by
  obtain ⟨s, hreach, hs⟩ : ∃ s,
      Reachable (restrict step fun s a => KeepsHandle s a = true) (.init 2) s ∧
        (s.broadcast.holds == some 1 && !s.registered.contains 0) = true :=
    Reachable.of_any (Script.joeAndAnn ++ Script.quit 0 (str "Joe") ++ Script.pop ++ Script.fetch)
      (by decide +kernel)
  simp only [Bool.and_eq_true, beq_iff_eq, Bool.not_eq_true', List.contains_eq_mem,
    decide_eq_false_iff_not] at hs
  exact ⟨s, hreach, hs.1, hs.2, (handle_registered hreach).1 1 hs.1⟩

/-- Joe quits while the broadcast thread is about to send to him. -/
theorem not_handle_registered_quit :
    ∃ s, Reachable step (.init 2) s ∧ s.crashed = false ∧ s.terminate = false ∧
      s.broadcast.holds = some 0 ∧ 0 ∉ s.registered := by
  obtain ⟨s, hreach, hs⟩ : ∃ s, Reachable step (.init 2) s ∧
      (s.crashed == false && s.terminate == false && s.broadcast.holds == some 0 &&
        !s.registered.contains 0) = true :=
    Reachable.of_any (Script.joeAndAnn ++ Script.pop ++ Script.fetch ++ Script.quit 0 (str "Joe"))
      (by decide +kernel)
  simp only [Bool.and_eq_true, beq_iff_eq, Bool.not_eq_true', List.contains_eq_mem,
    decide_eq_false_iff_not] at hs
  obtain ⟨⟨⟨hcrashed, hterm⟩, hheld⟩, hgone⟩ := hs
  exact ⟨s, hreach, hcrashed, hterm, hheld, hgone⟩

end C2Hat
