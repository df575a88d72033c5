import C2Hat.Server.Invariants

/-!
# Thread identifiers

The acceptor creates the thread of a client first and stores its identifier in the
entry of the client afterwards.  The thread begins by comparing the two: when it is
faster than the acceptor, it takes its own client for somebody else's, and closes the
connection of an entry that stays in the list.

## Main definitions

* `Identifiers` — where the identifier of a thread is, at any time.
* `StartsStored` — a thread begins after its identifier was stored.

## Main results

* `identifiers_of_reachable` — the invariant, in every run.
* `no_mismatch` — **no thread finds a wrong identifier** in the runs where threads
  begin after their identifiers were stored.
-/

namespace C2Hat

open Clib Runs

variable {s s' : State} {n : ℕ} {h : Addr}

/-! ### Identifiers in entries -/

/-- Only the acceptor writes identifiers. -/
theorem threadID_write {e : Effect} (he : ∀ t, e ≠ .setThreadID h t) (c : Client) :
    (e.write h c).threadID = c.threadID := by
  unfold Effect.write
  cases e with
  | setThreadID x t =>
    have hx : h ≠ x := by
      rintro rfl
      exact he t rfl
    simp [hx]
  | setNickname x | setBuffer x | freeSsl x | remove x =>
    dsimp only
    split <;> rfl
  | _ => rfl

/-- Threads other than the acceptor leave the identifiers alone. -/
theorem threadID_kept {e : Effect} (he : e.acceptorOnly = false) {c' : Client}
    (hc' : (s.apply e).entry h = some c') :
    ∃ c, s.entry h = some c ∧ c'.threadID = c.threadID := by
  rcases s.entry_apply_write hc' with ⟨l, -, -, rfl⟩ | ⟨c, hc, rfl⟩
  · cases he
  · refine ⟨c, hc, threadID_write ?_ c⟩
    rintro t rfl
    cases he

/-! ### The invariant -/

/-- The acceptor is about to store the identifier of the thread of client `h`. -/
def AcceptorPc.stores (h : Addr) : AcceptorPc → Bool
  | .store h' _ => h' == h
  | _ => false

/-- Where the identifier of a thread is. -/
structure Identifiers (s : State) : Prop where
  /-- An identifier is not zero. -/
  nonzero : ∀ h t, s.threads h = some t → t.me ≠ 0
  /-- Before the acceptor has stored it, it is not in the entry. -/
  spawning : ∀ h, s.acceptor = .spawn h → ∀ c, s.entry h = some c → c.threadID = 0
  storing : ∀ h me, s.acceptor = .store h me →
    (∀ t, s.threads h = some t → t.me = me) ∧ ∀ c, s.entry h = some c → c.threadID = 0
  /-- Then it is. -/
  stored : ∀ h t, s.threads h = some t → s.acceptor.stores h = false →
    ∀ c, s.entry h = some c → c.threadID = t.me

theorem identifiers_init : Identifiers (.init n) where
  nonzero h t ht := by cases ht
  spawning h hh := by cases hh
  storing h me hh := by cases hh
  stored h t ht := by cases ht

/-- A step that stores no identifier and creates no thread. -/
theorem Identifiers.of_kept (hs : Identifiers s)
    (hspawn : ∀ h, s'.acceptor = .spawn h → s.acceptor = .spawn h)
    (hstore : ∀ h me, s'.acceptor = .store h me → s.acceptor = .store h me)
    (hstores : ∀ h, s'.acceptor.stores h = false → s.acceptor.stores h = false)
    (hthreads : ∀ h t', s'.threads h = some t' → ∃ t, s.threads h = some t ∧ t'.me = t.me)
    (hentry : ∀ h c', s'.entry h = some c' → ∃ c, s.entry h = some c ∧ c'.threadID = c.threadID) :
    Identifiers s' where
  nonzero h t' ht' := by
    obtain ⟨t, ht, heq⟩ := hthreads h t' ht'
    rw [heq]
    exact hs.nonzero h t ht
  spawning h hh c' hc' := by
    obtain ⟨c, hc, heq⟩ := hentry h c' hc'
    exact heq.trans (hs.spawning h (hspawn h hh) c hc)
  storing h me hh := by
    obtain ⟨hme, hzero⟩ := hs.storing h me (hstore h me hh)
    refine ⟨fun t' ht' => ?_, fun c' hc' => ?_⟩
    · obtain ⟨t, ht, heq⟩ := hthreads h t' ht'
      exact heq.trans (hme t ht)
    · obtain ⟨c, hc, heq⟩ := hentry h c' hc'
      exact heq.trans (hzero c hc)
  stored h t' ht' hh c' hc' := by
    obtain ⟨t, ht, hme⟩ := hthreads h t' ht'
    obtain ⟨c, hc, heq⟩ := hentry h c' hc'
    rw [heq, hme]
    exact hs.stored h t ht (hstores h hh) c hc

/-- Steps of the broadcast thread and of the client threads. -/
theorem Identifiers.thread (hs : Identifiers s) {e : Effect} (he : e.acceptorOnly = false)
    (hacc : s'.acceptor = s.acceptor) (happly : s'.clients = (s.apply e).clients)
    (hthreads : ∀ h t', s'.threads h = some t' → ∃ t, s.threads h = some t ∧ t'.me = t.me) :
    Identifiers s' := by
  refine hs.of_kept (fun h hh => hacc ▸ hh) (fun h me hh => hacc ▸ hh) (fun h hh => hacc ▸ hh)
    hthreads ?_
  intro h c' hc'
  rw [State.entry, happly] at hc'
  exact threadID_kept he hc'

/-- `pthread_create` does not hand out zero. -/
theorem ne_zero_of_spawn {b : AcceptorAction} {me : BitVec 64} {pc : AcceptorPc}
    (hnext : Acceptor.next s b = some (.spawn h me, pc)) : me ≠ 0 := by
  unfold Acceptor.next at hnext
  repeat' split at hnext
  all_goals cases hnext
  next hunused =>
    unfold Acceptor.unusedID at hunused
    intro hzero
    simp [hzero] at hunused

theorem Identifiers.acceptor (hs : Identifiers s) (hhandles : Handles s) {b : AcceptorAction}
    {e : Effect} {pc₀ pc : AcceptorPc} (hpc : s.acceptor = pc₀)
    (hnext : Acceptor.next s b = some (e, pc)) (hacc : Acceptor.Step s pc₀ e pc) :
    Identifiers { s.apply e with acceptor := pc } := by
  have same : ∀ h t', s.threads h = some t' → ∃ t, s.threads h = some t ∧ t'.me = t.me :=
    fun h t' ht' => ⟨t', ht', rfl⟩
  -- steps that leave entries and threads alone, between places that are not about a thread
  have quiet : (∀ h, pc ≠ .spawn h) → (∀ h me, pc ≠ .store h me) → (∀ h, pc₀.stores h = false) →
      (s.apply e).threads = s.threads → (∀ h c', (s.apply e).entry h = some c' →
        ∃ c, s.entry h = some c ∧ c'.threadID = c.threadID) →
      Identifiers { s.apply e with acceptor := pc } := by
    intro hspawn hstore hstores hthreads hentry
    refine hs.of_kept (fun h hh => absurd hh (hspawn h)) (fun h me hh => absurd hh (hstore h me))
      (fun h _ => hpc ▸ hstores h) ?_ hentry
    intro h t' ht'
    exact same h t' (hthreads ▸ ht')
  have kept : (∀ h t, e ≠ .setThreadID h t) → (∀ c, e ≠ .append c) →
      ∀ h c', (s.apply e).entry h = some c' → ∃ c, s.entry h = some c ∧ c'.threadID = c.threadID := by
    intro hset happend h c' hc'
    rcases s.entry_apply_write hc' with ⟨l, -, -, he⟩ | ⟨c, hc, rfl⟩
    · exact absurd he (happend c')
    · exact ⟨c, hc, threadID_write (hset h) c⟩
  cases hacc with
  | fault =>
    exact hs.of_kept (by simp [hpc]) (by simp [hpc]) (by simp [hpc]) same (kept (by simp) (by simp))
  | move hmove =>
    cases hmove with
    | @notCreated h₀ =>
      -- the entry stays without a thread
      obtain ⟨hnone, -⟩ := hhandles.spawning h₀ hpc
      refine ⟨hs.nonzero, by simp, fun h me hh => ?_, fun h t ht hh => ?_⟩
      · cases hh
        refine ⟨fun t ht => ?_, hs.spawning _ hpc⟩
        cases hnone.symm.trans ht
      · exact hs.stored h t ht (by rw [hpc]; rfl)
    | _ => exact quiet (by simp) (by simp) (by simp [AcceptorPc.stores]) rfl (kept (by simp) (by simp))
  | newList | newQueue | joined | joinedAll | listFreed | queueFreed =>
    exact quiet (by simp) (by simp) (by simp [AcceptorPc.stores]) rfl (kept (by simp) (by simp))
  | @appended socket l hl =>
    have hentry : ∀ h c', (s.apply (.append (Acceptor.newClient socket))).entry h = some c' →
        (h = l.list.fresh ∧ c'.threadID = 0) ∨ (h ≠ l.list.fresh ∧ s.entry h = some c') := by
      intro h c' hc'
      rw [State.entry_append hl] at hc'
      split at hc'
      · next hfresh =>
        cases hc'
        exact Or.inl ⟨hfresh, rfl⟩
      · next hfresh => exact Or.inr ⟨hfresh, hc'⟩
    refine ⟨hs.nonzero, fun h hh c' hc' => ?_, by simp, fun h t ht _ c' hc' => ?_⟩
    · obtain rfl : l.list.fresh = h := by simpa using hh
      rcases hentry _ c' hc' with ⟨-, hzero⟩ | ⟨hne, -⟩
      · exact hzero
      · exact absurd rfl hne
    · rcases hentry h c' hc' with ⟨hfresh, -⟩ | ⟨-, hc⟩
      · exact absurd hfresh (hhandles.ne_fresh ht l hl)
      · exact hs.stored h t ht (by rw [hpc]; rfl) c' hc
  | @spawned h₀ me =>
    have hme := ne_zero_of_spawn hnext
    refine ⟨fun h t ht => ?_, by simp, fun h me' hh => ?_, fun h t ht hh => ?_⟩
    · rcases State.threads_update ht with ⟨-, rfl⟩ | ⟨-, ht⟩
      · exact hme
      · exact hs.nonzero h t ht
    · cases hh
      refine ⟨fun t ht => ?_, hs.spawning _ hpc⟩
      rcases State.threads_update ht with ⟨-, rfl⟩ | ⟨hne, -⟩
      · rfl
      · exact absurd rfl hne
    · rcases State.threads_update ht with ⟨rfl, -⟩ | ⟨-, ht⟩
      · simp [AcceptorPc.stores] at hh
      · exact hs.stored h t ht (by rw [hpc]; rfl)
  | @stored h₀ me =>
    obtain ⟨hthread, -⟩ := hs.storing h₀ me hpc
    refine ⟨hs.nonzero, by simp, by simp, fun h t ht _ c' hc' => ?_⟩
    change (s.modifyClient h₀ _).entry h = _ at hc'
    rw [State.entry_modifyClient] at hc'
    split at hc'
    · next hh =>
      obtain ⟨c, -, rfl⟩ := Option.map_eq_some_iff.mp hc'
      exact (hthread t (hh ▸ ht)).symm
    · next hh =>
      refine hs.stored h t ht ?_ c' hc'
      rw [hpc]
      exact beq_false_of_ne fun heq => hh heq.symm

/-- **The invariant holds in every run.** -/
theorem identifiers_of_reachable (hreach : Reachable step (.init n) s) : Identifiers s := by
  refine hreach.invariant_along identifiers_init ?_
  intro s₁ a s₂ hr hs hstep
  cases step_taken hstep with
  | stop => exact ⟨hs.nonzero, hs.spawning, hs.storing, hs.stored⟩
  | acceptor _ _ =>
    obtain ⟨e, pc, hnext, heq⟩ := step_acceptor hstep
    rw [heq]
    exact hs.acceptor (handles_of_reachable hr) rfl hnext (Acceptor.step_of_next hnext)
  | broadcast _ hbc =>
    refine hs.thread hbc.not_acceptorOnly (s₁.apply_acceptor _) rfl ?_
    intro h t ht
    change (s₁.apply _).threads h = some t at ht
    rw [s₁.apply_threads hbc.not_acceptorOnly] at ht
    exact ⟨t, ht, rfl⟩
  | @client h₀ me _ _ pc₀ _ ht₀ hcl =>
    refine hs.thread hcl.not_acceptorOnly (s₁.apply_acceptor _) rfl ?_
    intro h t ht
    rcases State.threads_update ht with ⟨rfl, rfl⟩ | ⟨-, ht⟩
    · exact ⟨_, ht₀, rfl⟩
    · exact ⟨t, ht, rfl⟩

/-! ### Threads that begin in time -/

/-- A thread begins only when the acceptor has stored its identifier. -/
def StartsStored (s : State) (a : Action) : Bool :=
  match a with
  | .client h _ =>
    match s.threads h with
    | some ⟨_, .start⟩ => !s.acceptor.stores h
    | _ => true
  | _ => true

/-- The thread has found that the identifier in its entry is not its own. -/
def Pc.mismatched : Pc → Bool
  | .drop .mismatch | .unlink .mismatch _ | .exited .mismatch => true
  | _ => false

/-- The place behind the comparison. -/
theorem next_start {me : BitVec 64} {b : ClientAction} {e : Effect} {pc : Pc}
    (hnext : ClientThread.next s h ⟨me, .start⟩ b = some (e, pc)) :
    pc = .start ∨ ∃ c, s.entry h = some c ∧
      pc = if me ≠ c.threadID then .drop .mismatch else .build .welcome := by
  unfold ClientThread.next at hnext
  cases b with
  | go =>
    rcases withClient_eq_some hnext with heq | ⟨c, hc, heq⟩
    · cases heq
      exact Or.inl rfl
    · cases heq
      exact Or.inr ⟨c, hc, rfl⟩
  | _ => cases hnext

/-- The comparison is the only way to find a wrong identifier. -/
theorem mismatched_of_step {me : BitVec 64} {b : ClientAction} {e : Effect} {pc₀ pc : Pc}
    (hcl : ClientThread.Step s h me pc₀ b e pc) (hpc : pc.mismatched = true) :
    pc₀ = .start ∨ pc₀.mismatched = true := by
  cases hcl with
  | fault => exact Or.inr hpc
  | move hmove =>
    cases hmove with
    | mismatch => exact Or.inl rfl
    | dropping site => cases site <;> first | exact Or.inr rfl | cases hpc
    | unlisted site => cases site <;> first | exact Or.inr rfl | cases hpc
    | _ => cases hpc
  | read hmove =>
    cases hmove with
    | mismatch => exact Or.inl rfl
    | dropping site => cases site <;> first | exact Or.inr rfl | cases hpc
    | unlisted site => cases site <;> first | exact Or.inr rfl | cases hpc
    | _ => cases hpc
  | @sent p => cases p <;> cases hpc
  | @failed p => cases p <;> cases hpc
  | pushed hpush => cases hpush <;> cases hpc
  | @freed site => cases site <;> cases hpc
  | @removed site => cases site <;> first | exact Or.inr rfl | cases hpc
  | _ => cases hpc

/-- What holds when threads begin in time. -/
structure Started (s : State) : Prop where
  /-- Behind the comparison, the acceptor is done with the thread. -/
  stored : ∀ h t, s.threads h = some t → t.pc ≠ .start → s.acceptor.stores h = false
  matched : ∀ h t, s.threads h = some t → t.pc.mismatched = false

theorem started_init : Started (.init n) where
  stored h t ht := by cases ht
  matched h t ht := by cases ht

theorem Started.acceptor (hs : Started s) (hhandles : Handles s) {e : Effect}
    {pc₀ pc : AcceptorPc} (hpc : s.acceptor = pc₀) (hacc : Acceptor.Step s pc₀ e pc) :
    Started { s.apply e with acceptor := pc } := by
  by_cases hspawn : ∃ h me, e = .spawn h me
  · -- the new thread is at its beginning
    obtain ⟨h₀, me, rfl⟩ := hspawn
    cases hacc
    refine ⟨fun h t ht hstart => ?_, fun h t ht => ?_⟩
    · rcases State.threads_update ht with ⟨-, rfl⟩ | ⟨hh, -⟩
      · exact absurd rfl hstart
      · exact beq_false_of_ne fun heq => hh heq.symm
    · rcases State.threads_update ht with ⟨-, rfl⟩ | ⟨-, ht⟩
      · rfl
      · exact hs.matched h t ht
  · have hthreads : (s.apply e).threads = s.threads := by
      cases hacc with
      | spawned => exact absurd ⟨_, _, rfl⟩ hspawn
      | _ => rfl
    refine ⟨fun h t ht hstart => ?_, fun h t ht => hs.matched h t (hthreads ▸ ht)⟩
    change (s.apply e).threads h = some t at ht
    rw [hthreads] at ht
    have hstored := hs.stored h t ht hstart
    rw [hpc] at hstored
    cases hacc with
    | fault => exact hstored
    | move hmove =>
      cases hmove with
      | @notCreated h₀ =>
        -- there is no thread with this handle
        refine beq_false_of_ne ?_
        rintro rfl
        cases (hhandles.spawning h₀ hpc).1.symm.trans ht
      | _ => rfl
    | spawned => exact absurd ⟨_, _, rfl⟩ hspawn
    | _ => rfl

theorem Started.client (hs : Started s) (hids : Identifiers s) {me : BitVec 64} {b : ClientAction}
    {e : Effect} {pc₀ pc : Pc} (ht₀ : s.threads h = some ⟨me, pc₀⟩)
    (hstarts : StartsStored s (.client h b) = true)
    (hnext : ClientThread.next s h ⟨me, pc₀⟩ b = some (e, pc))
    (hcl : ClientThread.Step s h me pc₀ b e pc) :
    Started { s.apply e with threads := Function.update s.threads h (some ⟨me, pc⟩) } := by
  have hbegin : pc₀ = .start → s.acceptor.stores h = false := by
    rintro rfl
    simpa [StartsStored, ht₀] using hstarts
  refine ⟨fun x t ht hstart => ?_, fun x t ht => ?_⟩
  · show (s.apply e).acceptor.stores x = false
    rw [s.apply_acceptor]
    rcases State.threads_update ht with ⟨rfl, -⟩ | ⟨-, ht⟩
    · by_cases hpc₀ : pc₀ = .start
      · exact hbegin hpc₀
      · exact hs.stored x _ ht₀ hpc₀
    · exact hs.stored x t ht hstart
  · rcases State.threads_update ht with ⟨rfl, rfl⟩ | ⟨-, ht⟩
    · by_contra hmis
      rw [Bool.not_eq_false] at hmis
      rcases mismatched_of_step hcl hmis with rfl | hmis₀
      · rcases next_start hnext with rfl | ⟨c, hc, heq⟩
        · cases hmis
        · have hid : c.threadID = me := hids.stored x _ ht₀ (hbegin rfl) c hc
          rw [heq, if_neg (not_not_intro hid.symm)] at hmis
          cases hmis
      · rw [hs.matched x _ ht₀] at hmis₀
        cases hmis₀
    · exact hs.matched x t ht

theorem started_of_reachable
    (hreach : Reachable (restrict step fun s a => StartsStored s a = true) (.init n) s) :
    Started s := by
  refine hreach.invariant_restrict started_init ?_
  intro s₁ a s₂ hr hs hstarts hstep
  cases step_taken hstep with
  | stop => exact ⟨hs.stored, hs.matched⟩
  | acceptor hpc hacc => exact hs.acceptor (handles_of_reachable hr) hpc hacc
  | broadcast _ hbc =>
    have hthreads := s₁.apply_threads hbc.not_acceptorOnly
    refine ⟨fun h t ht hstart => ?_, fun h t ht => hs.matched h t (hthreads ▸ ht)⟩
    exact (s₁.apply_acceptor _).symm ▸ hs.stored h t (hthreads ▸ ht) hstart
  | client _ _ =>
    obtain ⟨⟨me, pc₀⟩, e, pc, ht, hnext, heq⟩ := step_client hstep
    rw [heq]
    exact hs.client (identifiers_of_reachable hr) ht hstarts hnext (ClientThread.step_of_next hnext)

/-- A thread that began in time finds its identifier in its entry. -/
theorem threadID_of_started (hids : Identifiers s) (hs : Started s) {t : Thread}
    (ht : s.threads h = some t) (hstart : t.pc ≠ .start) {c : Client} (hc : s.entry h = some c) :
    c.threadID = t.me ∧ c.threadID ≠ 0 := by
  have hid := hids.stored h t ht (hs.stored h t ht hstart) c hc
  exact ⟨hid, hid ▸ hids.nonzero h t ht⟩

/-- **The spawn handshake** in every run where threads begin after their identifiers
were stored: no thread finds a wrong identifier, and none closes the connection of its
client while the entry stays in the list. -/
theorem no_mismatch
    (hreach : Reachable (restrict step fun s a => StartsStored s a = true) (.init n) s)
    {t : Thread} (ht : s.threads h = some t) :
    t.pc.mismatched = false ∧
      ∀ b e pc, ClientThread.next s h t b = some (e, pc) → e ≠ .freeSsl h := by
  have hs := started_of_reachable hreach
  refine ⟨hs.matched h t ht, ?_⟩
  rintro b _ pc hnext rfl
  obtain ⟨me, pc₀⟩ := t
  cases ClientThread.step_of_next hnext with
  | freed hc hid =>
    have hids := identifiers_of_reachable hreach.of_restrict
    exact (threadID_of_started hids hs ht (by simp) hc).2 hid

/-- Joe has joined, and his thread is in the chat. -/
theorem no_mismatch_joe :
    ∃ s t, Reachable (restrict step fun s a => StartsStored s a = true) (.init 1) s ∧
      s.threads 0 = some t ∧ t.pc = .chat ∧ t.pc.mismatched = false := by
  obtain ⟨s, hreach, hs⟩ : ∃ s,
      Reachable (restrict step fun s a => StartsStored s a = true) (.init 1) s ∧
        ((s.threads 0).any fun t => t.pc == .chat) = true :=
    Reachable.of_any (Script.startUp ++ Script.connect 11 ++ Script.join 0 (str "Joe"))
      (by decide +kernel)
  obtain ⟨t, ht, hpc⟩ := (Option.any_eq_true _ _).mp hs
  exact ⟨s, t, hreach, ht, eq_of_beq hpc, (no_mismatch hreach ht).1⟩

/-- The thread of a new client begins before its identifier is stored.  It closes the
connection, and the entry stays registered. -/
theorem not_no_mismatch_early :
    ∃ s s' t, Reachable step (.init 1) s ∧ s.threads 0 = some t ∧ t.pc = .drop .mismatch ∧
      Reachable step s s' ∧ s'.registered = [0] ∧ ∃ c, s'.entry 0 = some c ∧ c.ssl = .freed := by
  obtain ⟨s, hreach, hs⟩ : ∃ s, Reachable step (.init 1) s ∧
      ((s.threads 0).any (fun t => t.pc == .drop .mismatch) &&
        (run step s [.client 0 .go]).any fun s' =>
          s'.registered == [0] && (s'.entry 0).any fun c => c.ssl == .freed) = true :=
    Reachable.of_any (Script.startUp ++ (Script.connect 11).dropLast ++ [.client 0 .go])
      (by decide +kernel)
  simp only [Bool.and_eq_true, Option.any_eq_true, beq_iff_eq] at hs
  obtain ⟨⟨t, ht, hpc⟩, s', hrun, hreg, c, hc, hssl⟩ := hs
  exact ⟨s, s', t, hreach, ht, hpc, ⟨_, hrun⟩, hreg, c, hc, hssl⟩

end C2Hat
