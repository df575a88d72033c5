import C2Hat.Server.Invariants

/-!
# The lifetime of the shared data

The list of clients and the message queue are global variables.  `Server_start`
creates the broadcast thread before it creates them, and frees them at the end
without waiting for the threads of the clients, which are detached.

## Main definitions

* `FindsCreated` — what the broadcast thread is about to use has been created.
* `StartsFirst` — the acceptor takes its first two steps before the broadcast thread
  takes any.
* `ClientThread.accesses`, `LastAccessesMade` — the uses of the shared data by the
  threads of the clients.

## Main results

* `findsCreated_iff` — **the shared data is created before it is used** exactly in the
  runs where the acceptor starts first.
* `lastAccessesMade_iff` — **the shared data is freed after its last use** exactly when
  every thread of a client has ended by then.
-/

namespace C2Hat

open Clib Runs

variable {s s' : State} {n : ℕ} {h : Addr}

/-! ### When the shared data exists -/

/-- The acceptor has created the list and not freed it. -/
def AcceptorPc.hasList : AcceptorPc → Bool
  | .newList | .joinBroadcast | .freeQueue | .done => false
  | _ => true

/-- The acceptor has created the queue and not freed it. -/
def AcceptorPc.hasQueue : AcceptorPc → Bool
  | .newList | .newQueue | .done => false
  | _ => true

/-- When the list and the queue exist. -/
structure Lifetime (s : State) : Prop where
  list : s.clients.isSome = s.acceptor.hasList
  queue : s.messages.isSome = s.acceptor.hasQueue
  /-- The broadcast thread is waited for. -/
  joined : s.acceptor = .freeQueue ∨ s.acceptor = .done → s.broadcast = .exited

theorem lifetime_init : Lifetime (.init n) where
  list := rfl
  queue := rfl
  joined h := by cases h <;> contradiction

/-- The queue exists from its creation to its end. -/
theorem isSome_messages_apply {e : Effect} (hnew : e ≠ .newQueue) (hfree : e ≠ .freeQueue)
    (hpop : ∀ m rest, e = .pop m rest → rest.isSome = s.messages.isSome) :
    (s.apply e).messages.isSome = s.messages.isSome := by
  cases e with
  | newQueue => exact absurd rfl hnew
  | freeQueue => exact absurd rfl hfree
  | pop m rest => exact hpop m rest rfl
  | push m => cases hq : s.messages <;> simp [State.apply, CQueue.push, hq, State.record]
  | _ => rfl

/-- Steps of the broadcast thread and of the client threads. -/
theorem Lifetime.thread (hs : Lifetime s) {e : Effect} (he : e.acceptorOnly = false)
    (hpop : ∀ m rest, e = .pop m rest → rest.isSome = s.messages.isSome)
    (hacc : s'.acceptor = s.acceptor) (hclients : s'.clients = (s.apply e).clients)
    (hmessages : s'.messages = (s.apply e).messages)
    (hexited : s.broadcast = .exited → s'.broadcast = .exited) : Lifetime s' := by
  refine ⟨?_, ?_, ?_⟩
  · rw [hclients, hacc, ← hs.list]
    exact s.isSome_apply (by rintro rfl; cases he) (by rintro rfl; cases he)
  · rw [hmessages, hacc, ← hs.queue]
    exact isSome_messages_apply (by rintro rfl; cases he) (by rintro rfl; cases he) hpop
  · intro hjoined
    rw [hacc] at hjoined
    exact hexited (hs.joined hjoined)

/-- What the broadcast thread pops leaves a queue behind. -/
theorem isSome_of_tryPop {r : Option (C2HMessage × ℕ)} {rest : Option (Fifo C2HMessage)}
    (hpop : CQueue.tryPop s.messages = .ok (r, rest)) : rest.isSome = s.messages.isSome := by
  cases hq : s.messages with
  | none =>
    rw [hq] at hpop
    cases hpop
  | some f =>
    rw [hq] at hpop
    obtain ⟨f', hr, -⟩ := CQueue.tryPop_cases hpop
    obtain rfl : rest = some f' := congrArg Prod.snd hr
    rfl

theorem Lifetime.acceptor (hs : Lifetime s) {e : Effect} {pc₀ pc : AcceptorPc}
    (hpc : s.acceptor = pc₀) (hacc : Acceptor.Step s pc₀ e pc) :
    Lifetime { s.apply e with acceptor := pc } := by
  obtain ⟨hlist, hqueue, hjoined⟩ := hs
  rw [hpc] at hlist hqueue hjoined
  cases hacc with
  | fault => exact ⟨hlist, hqueue, hjoined⟩
  | move hmove =>
    cases hmove with
    | joinedBroadcast hexited => exact ⟨hlist, hqueue, fun _ => hexited⟩
    | _ => exact ⟨hlist, hqueue, by simp⟩
  | newList => exact ⟨rfl, hqueue, by simp⟩
  | newQueue => exact ⟨hlist, rfl, by simp⟩
  | listFreed _ => exact ⟨rfl, hqueue, by simp⟩
  | queueFreed _ => exact ⟨hlist, rfl, fun _ => hjoined (Or.inl rfl)⟩
  | spawned => exact ⟨hlist, hqueue, by simp⟩
  | appended hl | stored | joined hl | joinedAll hl =>
    exact ⟨(s.isSome_apply (by simp) (by simp)).trans hlist, hqueue, by simp⟩

theorem lifetime_of_reachable (hreach : Reachable step (.init n) s) : Lifetime s := by
  refine hreach.invariant lifetime_init ?_
  intro s a s' hs hstep
  cases step_taken hstep with
  | stop => exact ⟨hs.list, hs.queue, hs.joined⟩
  | acceptor hpc hacc => exact hs.acceptor hpc hacc
  | @broadcast _ _ pc₀ pc hpc hbc =>
    refine hs.thread hbc.not_acceptorOnly ?_ (s.apply_acceptor _) rfl rfl ?_
    · intro m rest he
      subst he
      cases hbc with
      | popped hpop => exact isSome_of_tryPop hpop
    · intro hexited
      obtain rfl := hpc.symm.trans hexited
      cases hbc
      rfl
  | client _ hcl =>
    refine hs.thread hcl.not_acceptorOnly ?_ (s.apply_acceptor _) rfl rfl ?_
    · intro m rest he
      subst he
      cases hcl
    · intro hexited
      exact (s.apply_broadcast _).trans hexited

/-! ### Starting up -/

/-- A step of the acceptor. -/
def Action.isAcceptor : Action → Bool
  | .acceptor _ => true
  | _ => false

/-- A step of the broadcast thread. -/
def Action.isBroadcast : Action → Bool
  | .broadcast _ => true
  | _ => false

/-- What the broadcast thread is about to use has been created: the queue for
`CQueue_tryPop`, the list for `List_rewind` and `List_next`, unless the acceptor has
freed it again. -/
def FindsCreated (s : State) : Prop :=
  match s.broadcast with
  | .pop => s.messages.isSome = true
  | .rewind _ | .next _ =>
    s.clients.isSome = true ∨ s.acceptor = .joinBroadcast ∨ s.acceptor = .freeQueue ∨
      s.acceptor = .done
  | _ => True

/-- Before every step of the broadcast thread there are two of the acceptor. -/
def StartsFirst (as : List Action) : Prop :=
  ∀ pre b post, as = pre ++ .broadcast b :: post → 2 ≤ pre.countP Action.isAcceptor

/-- The place of the acceptor after its first steps. -/
def AcceptorPc.startedUp : ℕ → AcceptorPc → Prop
  | 0, pc => pc = .newList
  | 1, pc => pc = .newQueue
  | _, pc => pc ≠ .newList ∧ pc ≠ .newQueue

theorem startedUp_acceptor {b : AcceptorAction} {e : Effect} {pc : AcceptorPc}
    (hnext : Acceptor.next s b = some (e, pc)) {k : ℕ} (hk : s.acceptor.startedUp k) :
    pc.startedUp (k + 1) := by
  match k with
  | 0 =>
    change s.acceptor = .newList at hk
    cases b <;> simp only [Acceptor.next, hk] at hnext <;> cases hnext
    rfl
  | 1 =>
    change s.acceptor = .newQueue at hk
    cases b <;> simp only [Acceptor.next, hk] at hnext <;> cases hnext
    exact ⟨by simp, by simp⟩
  | k + 2 =>
    obtain ⟨hlist, hqueue⟩ := hk
    have hacc := Acceptor.step_of_next hnext
    generalize s.acceptor = pc₀ at hacc hlist hqueue
    cases hacc with
    | fault => exact ⟨hlist, hqueue⟩
    | move hmove => cases hmove <;> exact ⟨by simp, by simp⟩
    | newList => exact absurd rfl hlist
    | _ => exact ⟨by simp, by simp⟩

/-- The number of its steps says how far the acceptor is. -/
theorem startedUp_of_run {as : List Action} (hrun : run step (.init n) as = some s) :
    s.acceptor.startedUp (as.countP Action.isAcceptor) := by
  induction as using List.reverseRecOn generalizing s with
  | nil =>
    cases hrun
    rfl
  | append_singleton as a ih =>
    obtain ⟨t, ht, hrest⟩ := run_append_eq_some hrun
    obtain ⟨s', hstep, hend⟩ := Option.bind_eq_some_iff.mp hrest
    cases hend
    have hind := ih ht
    rw [List.countP_append]
    cases step_taken hstep with
    | stop => exact hind
    | acceptor _ _ =>
      obtain ⟨e, pc, hnext, heq⟩ := step_acceptor hstep
      rw [heq]
      exact startedUp_acceptor hnext hind
    | broadcast _ _ => exact (t.apply_acceptor _).symm ▸ hind
    | client _ _ => exact (t.apply_acceptor _).symm ▸ hind

/-- Without a step of the broadcast thread it is still at its beginning. -/
theorem broadcast_of_run {as : List Action} (hrun : run step (.init n) as = some s)
    (has : ∀ a ∈ as, a.isBroadcast = false) : s.broadcast = .pop := by
  induction as using List.reverseRecOn generalizing s with
  | nil =>
    cases hrun
    rfl
  | append_singleton as a ih =>
    obtain ⟨t, ht, hrest⟩ := run_append_eq_some hrun
    obtain ⟨s', hstep, hend⟩ := Option.bind_eq_some_iff.mp hrest
    cases hend
    have hind := ih ht fun b hb => has b (List.mem_append_left _ hb)
    cases step_taken hstep with
    | stop => exact hind
    | acceptor _ _ => exact (t.apply_broadcast _).trans hind
    | broadcast _ _ => cases has _ (List.mem_append_right _ (List.mem_singleton.mpr rfl))
    | client _ _ => exact (t.apply_broadcast _).trans hind

/-- Behind the first two steps of the acceptor everything is there. -/
theorem FindsCreated.of_startedUp (hs : Lifetime s) {k : ℕ} (hk : 2 ≤ k)
    (hup : s.acceptor.startedUp k) : FindsCreated s := by
  obtain ⟨k, rfl⟩ := Nat.exists_eq_add_of_le' hk
  obtain ⟨hnewList, hnewQueue⟩ := hup
  unfold FindsCreated
  split
  · next hpc =>
    rw [hs.queue]
    cases hacc : s.acceptor with
    | newList => exact absurd hacc hnewList
    | newQueue => exact absurd hacc hnewQueue
    | done =>
      -- the broadcast thread has ended before the queue is freed
      cases hpc.symm.trans (hs.joined (Or.inr hacc))
    | _ => rfl
  · rw [hs.list]
    cases hacc : s.acceptor with
    | newList => exact absurd hacc hnewList
    | _ => simp [AcceptorPc.hasList]
  · rw [hs.list]
    cases hacc : s.acceptor with
    | newList => exact absurd hacc hnewList
    | _ => simp [AcceptorPc.hasList]
  · trivial

/-- Before them, the broadcast thread finds nothing. -/
theorem not_findsCreated_of_startedUp (hs : Lifetime s) (hpc : s.broadcast = .pop) {k : ℕ}
    (hk : k < 2) (hup : s.acceptor.startedUp k) : ¬ FindsCreated s := by
  unfold FindsCreated
  rw [hpc, hs.queue]
  match k with
  | 0 =>
    change s.acceptor = .newList at hup
    simp [hup, AcceptorPc.hasQueue]
  | 1 =>
    change s.acceptor = .newQueue at hup
    simp [hup, AcceptorPc.hasQueue]

/-- **The shared data is created before it is used** exactly in the runs where the
acceptor takes its first two steps before the broadcast thread takes any. -/
theorem findsCreated_iff {as : List Action} (hrun : run step (.init n) as = some s) :
    (∀ pre b post s₁, as = pre ++ .broadcast b :: post → run step (.init n) pre = some s₁ →
      FindsCreated s₁) ↔ StartsFirst as := by
  constructor
  · intro hfinds pre b post has
    by_contra hlt
    rw [not_le] at hlt
    -- the first step of the broadcast thread comes no later than this one
    have hfirst : ∃ x, (pre ++ [Action.broadcast b]).find? Action.isBroadcast = some x := by
      rw [← Option.isSome_iff_exists, List.find?_isSome]
      exact ⟨.broadcast b, by simp, rfl⟩
    obtain ⟨x, hx⟩ := hfirst
    obtain ⟨hbroadcast, pre', post', heq, hpre'⟩ := List.find?_eq_some_iff_append.mp hx
    obtain ⟨b', rfl⟩ : ∃ b', x = .broadcast b' := by
      cases x with
      | broadcast b' => exact ⟨b', rfl⟩
      | _ => cases hbroadcast
    have hsplit : as = pre' ++ .broadcast b' :: (post' ++ post) := by
      rw [has, ← List.singleton_append, ← List.append_assoc, heq, List.append_assoc]
      rfl
    have hcount : pre'.countP Action.isAcceptor ≤ pre.countP Action.isAcceptor := by
      have hle := congrArg (List.countP Action.isAcceptor) heq
      simp only [List.countP_append, List.countP_cons_of_neg (show ¬ (Action.broadcast _).isAcceptor
        from Bool.false_ne_true), List.countP_nil] at hle
      omega
    rw [hsplit] at hrun
    obtain ⟨s₁, hs₁, -⟩ := run_append_eq_some hrun
    refine not_findsCreated_of_startedUp (lifetime_of_reachable ⟨_, hs₁⟩)
      (broadcast_of_run hs₁ ?_) (lt_of_le_of_lt hcount hlt) (startedUp_of_run hs₁)
      (hfinds pre' b' _ s₁ hsplit hs₁)
    intro a ha
    simpa using hpre' a ha
  · intro hfirst pre b post s₁ has hs₁
    exact .of_startedUp (lifetime_of_reachable ⟨_, hs₁⟩) (hfirst pre b post has)
      (startedUp_of_run hs₁)

/-- The acceptor starts first, and the broadcast thread finds an empty queue. -/
theorem findsCreated_startUp :
    ∃ s, run step (.init 1) (Script.startUp ++ [.broadcast .go]) = some s ∧
      s.broadcast = .sleep ∧
      ∀ pre b post s₁, Script.startUp ++ [.broadcast .go] = pre ++ .broadcast b :: post →
        run step (.init 1) pre = some s₁ → FindsCreated s₁ := by
  obtain ⟨s, hrun, hpc⟩ : ∃ s, run step (.init 1) (Script.startUp ++ [.broadcast .go]) = some s ∧
      (s.broadcast == .sleep) = true :=
    (Option.any_eq_true _ _).mp (by decide +kernel)
  refine ⟨s, hrun, eq_of_beq hpc, (findsCreated_iff hrun).mpr ?_⟩
  intro pre b post has
  match pre with
  | [] => cases has
  | [_] => cases has
  | x :: y :: rest =>
    simp only [Script.startUp, List.cons_append, List.cons.injEq] at has
    obtain ⟨rfl, rfl, -⟩ := has
    rw [List.countP_cons_of_pos rfl, List.countP_cons_of_pos rfl]
    omega

/-- The broadcast thread is faster than the acceptor, and locks a mutex of a queue that
does not exist. -/
theorem not_findsCreated_early :
    ∃ s, run step (.init 1) [.broadcast .go] = some s ∧ s.crashed = true ∧
      ¬ ∀ pre b post s₁, [.broadcast .go] = pre ++ .broadcast b :: post →
        run step (.init 1) pre = some s₁ → FindsCreated s₁ := by
  refine ⟨_, rfl, rfl, ?_⟩
  intro hfinds
  have hqueue : (none : Option (Fifo C2HMessage)).isSome = true := hfinds [] .go [] _ rfl rfl
  cases hqueue

/-! ### Shutting down -/

/-- The thread of a client has ended. -/
def Pc.hasExited : Pc → Bool
  | .exited _ => true
  | _ => false

/-- The step reads or writes the list of clients, one of its entries, or the queue. -/
def ClientThread.accesses : Pc → ClientAction → Bool
  | .build .hello, _ => true
  | .build _, _ => false
  | .authWait, .ready _ _ _ | .chatWait, .ready _ _ _ => true
  | .authWait, _ | .chatWait, _ => false
  | .validate _, _ | .chat, _ | .exited _, _ => false
  | _, _ => true

/-- Where a thread does not access them, the shared data makes no difference, and is
left alone. -/
theorem next_of_not_accesses {t : Thread} {b : ClientAction} {e : Effect} {pc : Pc}
    (haccess : ClientThread.accesses t.pc b = false)
    (hnext : ClientThread.next s h t b = some (e, pc)) (hterm : s'.terminate = s.terminate) :
    e = .none ∧ ClientThread.next s' h t b = some (e, pc) := by
  obtain ⟨me, pc₀⟩ := t
  cases pc₀ with
  | build p =>
    cases p with
    | hello => cases haccess
    | _ =>
      cases b with
      | message m =>
        simp only [ClientThread.next] at hnext ⊢
        refine ⟨?_, hnext⟩
        split at hnext
        · cases hnext
          rfl
        · cases hnext
      | _ => cases hnext
  | authWait | chatWait =>
    cases b with
    | selectFailed | timeout =>
      cases hnext
      exact ⟨rfl, rfl⟩
    | ready => cases haccess
    | _ => cases hnext
  | validate nick =>
    cases b with
    | regex result =>
      simp only [ClientThread.next] at hnext ⊢
      refine ⟨?_, hnext⟩
      split at hnext
      · cases hnext
        rfl
      · cases hnext
    | _ => cases hnext
  | chat =>
    cases b with
    | go =>
      cases hnext
      refine ⟨rfl, ?_⟩
      simp only [ClientThread.next, hterm]
    | _ => cases hnext
  | exited site => cases b <;> cases hnext
  | _ => cases haccess

/-- Where it does access them, there is nothing left after the list was freed. -/
theorem exists_fault (hclients : s.clients = none) (hlock : s.lockFree = true) (me : BitVec 64)
    {pc : Pc} {b : ClientAction} (haccess : ClientThread.accesses pc b = true) :
    ∃ b', ClientThread.accesses pc b' = true ∧
      ClientThread.next s h ⟨me, pc⟩ b' = some (.fault, pc) := by
  have hentry : ∀ (pc : Pc) (k : Client → Option (Effect × Pc)),
      s.withClient h pc k = some (.fault, pc) := by
    intro pc k
    rw [State.withClient, State.entry, hclients]
    rfl
  have hlocked : ∀ (pc : Pc) (k : ClientList → Option (Effect × Pc)),
      s.locked pc k = some (.fault, pc) := by
    intro pc k
    rw [State.locked, if_pos hlock, hclients]
  cases pc with
  | build p =>
    cases p with
    | hello => exact ⟨.message default, rfl, hentry _ _⟩
    | _ => cases haccess
  | authWait | chatWait => exact ⟨.ready false false [], rfl, hentry _ _⟩
  | validate | chat | exited => cases haccess
  | lookupNick | lookupThread | unlink => exact ⟨.go, rfl, hlocked _ _⟩
  | _ => exact ⟨.go, rfl, hentry _ _⟩

/-- The acceptor executes `List_free` or `CQueue_free` next. -/
def Frees (s : State) : Prop :=
  ∃ pc, Acceptor.next s .go = some (.freeList, pc) ∨ Acceptor.next s .go = some (.freeQueue, pc)

/-- No thread of a client accesses the shared data any more, in any continuation. -/
def LastAccessesMade (s : State) : Prop :=
  ∀ s₁ h t b, Reachable step s s₁ → s₁.threads h = some t →
    (step s₁ (.client h b)).isSome = true → ClientThread.accesses t.pc b = false

/-- The threads of all clients have ended. -/
def AllExited (s : State) : Prop := ∀ h t, s.threads h = some t → t.pc.hasExited = true

/-- What the acceptor does to free something. -/
theorem Frees.step (hfrees : Frees s) (hstep : step s (.acceptor .go) = some s') :
    s.acceptor.stopping = true ∧ s'.acceptor.stopping = true ∧ s'.lockFree = true ∧
      s'.threads = s.threads ∧ s'.acceptor.hasList = false ∧ s'.terminate = s.terminate ∧
      s'.crashed = s.crashed := by
  obtain ⟨e, pc', hnext', rfl⟩ := step_acceptor hstep
  obtain ⟨pc, hnext | hnext⟩ := hfrees
  · obtain ⟨rfl, rfl⟩ := Prod.mk.inj (Option.some.inj (hnext'.symm.trans hnext))
    have hacc := Acceptor.step_of_next hnext
    generalize hpc : s.acceptor = pc₀ at hacc
    cases hacc
    exact ⟨rfl, rfl, rfl, rfl, rfl, rfl, rfl⟩
  · obtain ⟨rfl, rfl⟩ := Prod.mk.inj (Option.some.inj (hnext'.symm.trans hnext))
    have hacc := Acceptor.step_of_next hnext
    generalize hpc : s.acceptor = pc₀ at hacc
    cases hacc
    exact ⟨rfl, rfl, rfl, rfl, rfl, rfl, rfl⟩

/-- The acceptor does not create threads any more. -/
theorem Acceptor.Step.stopping {e : Effect} {pc₀ pc : AcceptorPc} (hacc : Acceptor.Step s pc₀ e pc)
    (hstop : pc₀.stopping = true) : pc.stopping = true ∧ (s.apply e).threads = s.threads := by
  cases hacc with
  | fault => exact ⟨hstop, rfl⟩
  | move hmove =>
    cases hmove with
    | joinedBroadcast _ => exact ⟨rfl, rfl⟩
    | _ => cases hstop
  | joined | joinedAll | listFreed | queueFreed => exact ⟨rfl, rfl⟩
  | _ => cases hstop

/-- A thread that has ended takes no step. -/
theorem next_exited {t : Thread} (hexited : t.pc.hasExited = true) (b : ClientAction) :
    ClientThread.next s h t b = none := by
  obtain ⟨me, pc⟩ := t
  cases pc with
  | exited site => cases b <;> rfl
  | _ => cases hexited

/-- When all have ended, it stays so. -/
theorem allExited_of_reachable (hs : AllExited s) (hstop : s.acceptor.stopping = true)
    (hreach : Reachable step s s') : AllExited s' := by
  have hboth : AllExited s' ∧ s'.acceptor.stopping = true := by
    refine hreach.invariant (P := fun s => AllExited s ∧ s.acceptor.stopping = true)
      ⟨hs, hstop⟩ ?_
    rintro s a s' ⟨hs, hstop⟩ hstep
    cases step_taken hstep with
    | stop => exact ⟨hs, hstop⟩
    | acceptor hpc hacc =>
      obtain ⟨hstop', hthreads⟩ := hacc.stopping (hpc ▸ hstop)
      exact ⟨fun h t ht => hs h t (hthreads ▸ ht), hstop'⟩
    | broadcast _ hbc =>
      have hthreads := s.apply_threads hbc.not_acceptorOnly
      exact ⟨fun h t ht => hs h t (hthreads ▸ ht), (s.apply_acceptor _).symm ▸ hstop⟩
    | client ht _ =>
      obtain ⟨t, e, pc, ht, hnext, -⟩ := step_client hstep
      rw [next_exited (hs _ t ht)] at hnext
      cases hnext
  exact hboth.1

/-- A thread that has not ended gets to an access, after one step at most. -/
theorem exists_access (hclients : s.clients = none) (hlock : s.lockFree = true)
    (hterm : s.terminate = true) (hcrashed : s.crashed = false) {t : Thread}
    (ht : s.threads h = some t) (hexited : t.pc.hasExited = false) : ¬ LastAccessesMade s := by
  intro hlast
  obtain ⟨me, pc⟩ := t
  -- at an access
  have now : ∀ {s₁ : State} {pc : Pc} (b : ClientAction), Reachable step s s₁ →
      s₁.clients = none → s₁.lockFree = true → s₁.crashed = false →
      s₁.threads h = some ⟨me, pc⟩ → ClientThread.accesses pc b = true → False := by
    intro s₁ pc b hr hclients hlock hcrashed ht haccess
    obtain ⟨b', haccess', hnext⟩ := exists_fault (h := h) hclients hlock me haccess
    have hfalse := hlast s₁ h _ b' hr ht (by simp [step, hcrashed, ht, hnext])
    rw [haccess'] at hfalse
    cases hfalse
  -- one step before
  have later : ∀ (b : ClientAction) (pc' : Pc) (b' : ClientAction),
      ClientThread.next s h ⟨me, pc⟩ b = some (.none, pc') →
      ClientThread.accesses pc' b' = true → False := by
    intro b pc' b' hnext haccess
    have hstep : step s (.client h b) =
        some { s with threads := Function.update s.threads h (some ⟨me, pc'⟩) } := by
      simp [step, hcrashed, ht, hnext, State.apply]
    exact now b' (Reachable.refl.tail hstep) hclients hlock hcrashed (Function.update_self ..)
      haccess
  cases pc with
  | build p =>
    by_cases hp : p = .hello
    · subst hp
      exact now .go .refl hclients hlock hcrashed ht rfl
    · obtain ⟨m, hm⟩ : ∃ m, formatted p.type m (p.message CStr.empty) = true := by
        cases p.message CStr.empty with
        | ok m => exact ⟨m, beq_self_eq_true m⟩
        | error f => exact ⟨⟨p.type, CStr.empty, CStr.empty⟩, beq_self_eq_true p.type⟩
      refine later (.message m) (.write p m (Server.frame m)) .go ?_ rfl
      cases p with
      | hello => exact absurd rfl hp
      | _ => simp only [ClientThread.next, hm, if_true]
  | validate nick => exact later (.regex .failed) (.lookupNick nick) .go rfl rfl
  | chat =>
    refine later .go .announceLeave .go ?_ rfl
    simp only [ClientThread.next, hterm, if_true]
  | authWait | chatWait => exact now (.ready false false []) .refl hclients hlock hcrashed ht rfl
  | exited site => cases hexited
  | _ => exact now .go .refl hclients hlock hcrashed ht rfl

/-- **The shared data is freed after its last use** exactly when the threads of all
clients have ended by then. -/
theorem lastAccessesMade_iff (hreach : Reachable step (.init n) s) (hfrees : Frees s)
    (hstep : step s (.acceptor .go) = some s') : LastAccessesMade s' ↔ AllExited s := by
  obtain ⟨hstop, hstop', hlock, hthreads, hlist, hterm, hcrashed⟩ := hfrees.step hstep
  have hclients : s'.clients = none := by
    have hsome := (lifetime_of_reachable (hreach.tail hstep)).list
    rw [hlist] at hsome
    simpa using hsome
  have hrunning : s.crashed = false := by
    by_contra hcrash
    rw [Bool.not_eq_false] at hcrash
    rw [step, if_pos hcrash] at hstep
    cases hstep
  constructor
  · intro hlast h t ht
    by_contra hexited
    rw [Bool.not_eq_true] at hexited
    exact exists_access hclients hlock (hterm.trans (terminate_of_stopping hreach hstop))
      (hcrashed.trans hrunning) (hthreads ▸ ht) hexited hlast
  · intro hexited s₁ h t b hr ht hsome
    have hexited' : AllExited s' := fun h t ht => hexited h t (hthreads ▸ ht)
    have ht' := allExited_of_reachable hexited' hstop' hr h t ht
    obtain ⟨s₂, hs₂⟩ := Option.isSome_iff_exists.mp hsome
    obtain ⟨t', e, pc, ht₂, hnext, -⟩ := step_client hs₂
    cases ht.symm.trans ht₂
    rw [next_exited ht'] at hnext
    cases hnext

/-- The acceptor is told to stop, and gets to the end of the list of clients. -/
def Script.shutDown (clients : ℕ) : List Action :=
  .stop :: List.replicate (clients + 2) (.acceptor .go)

theorem Frees.of_freeList (hacc : s.acceptor = .freeList) (hlist : s.clients.isSome = true) :
    Frees s := by
  obtain ⟨l, hl⟩ := Option.isSome_iff_exists.mp hlist
  exact ⟨.joinBroadcast, Or.inl (by simp [Acceptor.next, hacc, hl])⟩

/-- Joe has quit before the server is stopped and the list is freed. -/
theorem lastAccessesMade_quit :
    ∃ s s', Reachable step (.init 1) s ∧ Frees s ∧ step s (.acceptor .go) = some s' ∧
      s.threads 0 = some ⟨11, .exited .leave⟩ ∧ LastAccessesMade s' := by
  obtain ⟨s, hreach, hs⟩ : ∃ s, Reachable step (.init 1) s ∧
      (s.acceptor == .freeList && s.clients.isSome && s.fresh == 1 &&
        s.threads 0 == some ⟨11, .exited .leave⟩ && (step s (.acceptor .go)).isSome) = true :=
    Reachable.of_any (Script.startUp ++ Script.connect 11 ++ Script.join 0 (str "Joe") ++
      Script.quit 0 (str "Joe") ++ Script.shutDown 0) (by decide +kernel)
  simp only [Bool.and_eq_true, beq_iff_eq, Option.isSome_iff_exists (x := step _ _)] at hs
  obtain ⟨⟨⟨⟨hacc, hlist⟩, hfresh⟩, ht⟩, s', hstep⟩ := hs
  have hfrees := Frees.of_freeList hacc hlist
  refine ⟨s, s', hreach, hfrees, hstep, ht, (lastAccessesMade_iff hreach hfrees hstep).mpr ?_⟩
  intro h t ht'
  -- there is no other thread
  have hlt := (handles_of_reachable hreach).bound h t ht' hlist
  rw [hfresh] at hlt
  obtain rfl : h = 0 := Nat.lt_one_iff.mp hlt
  cases ht.symm.trans ht'
  rfl

/-- Joe is in the chat when the list is freed; his thread is going to announce that he
has left. -/
theorem not_lastAccessesMade_chat :
    ∃ s s', Reachable step (.init 1) s ∧ Frees s ∧ step s (.acceptor .go) = some s' ∧
      s'.threads 0 = some ⟨11, .chat⟩ ∧ ¬ LastAccessesMade s' := by
  obtain ⟨s, hreach, hs⟩ : ∃ s, Reachable step (.init 1) s ∧
      (s.acceptor == .freeList && s.clients.isSome && (step s (.acceptor .go)).any fun s' =>
        s'.clients.isNone && s'.lockFree && s'.terminate && !s'.crashed &&
          s'.threads 0 == some ⟨11, .chat⟩) = true :=
    Reachable.of_any (Script.startUp ++ Script.connect 11 ++ Script.join 0 (str "Joe") ++
      Script.shutDown 1) (by decide +kernel)
  simp only [Bool.and_eq_true, beq_iff_eq, Option.any_eq_true, Option.isNone_iff_eq_none,
    Bool.not_eq_true'] at hs
  obtain ⟨⟨hacc, hlist⟩, s', hstep, ⟨⟨⟨hclients, hlock⟩, hterm⟩, hcrashed⟩, ht⟩ := hs
  exact ⟨s, s', hreach, .of_freeList hacc hlist, hstep, ht,
    exists_access hclients hlock hterm hcrashed ht rfl⟩

end C2Hat
