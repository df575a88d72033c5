import C2Hat.Server.Effects

/-!
# Facts about every state

What holds in every state of every run, whatever the schedule: the acceptor shuts
down only when it was told to, registered clients have a valid socket, an empty list
has no cursor, the handle of a thread is one that was given out before, and the list
is no longer than the configuration allows.

## Main results

* `terminate_of_stopping`, `socket_valid`, `cursor_of_empty`, `handles_of_reachable`.
* `registered_le_maxConnections` — **the limit on the connections is kept.**
-/

namespace C2Hat

open Clib Runs

variable {s s' : State} {n : ℕ}

/-! ### Shutting down -/

/-- The acceptor has left its loop. -/
def AcceptorPc.stopping : AcceptorPc → Bool
  | .joinClients | .freeList | .joinBroadcast | .freeQueue | .done => true
  | _ => false

theorem terminate_of_stopping (hreach : Reachable step (.init n) s)
    (hstop : s.acceptor.stopping = true) : s.terminate = true := by
  refine hreach.invariant (P := fun s => s.acceptor.stopping = true → s.terminate = true)
    (fun h => by cases h) (fun {s a s'} hs hstep => ?_) hstop
  cases step_taken hstep with
  | stop => exact fun _ => rfl
  | broadcast _ _ => simpa using hs
  | client _ _ => simpa using hs
  | acceptor hpc hacc =>
    intro h
    rw [State.apply_terminate]
    rw [hpc] at hs
    cases hacc with
    | fault => exact hs h
    | move hmove =>
      cases hmove with
      | terminated hterm => exact hterm
      | joinedBroadcast _ => exact hs rfl
      | _ => cases h
    | joined | joinedAll | listFreed | queueFreed => exact hs rfl
    | _ => cases h

/-! ### Sockets -/

/-- The socket of a connection that the acceptor is about to register. -/
def AcceptorPc.socket : AcceptorPc → Option ℤ
  | .room socket | .append socket => some socket
  | _ => none

/-- The sockets are valid, also the one of the next client. -/
structure SocketsValid (s : State) : Prop where
  entries : ∀ h c, s.entry h = some c → socketIsValid c.socket = true
  next : ∀ socket, s.acceptor.socket = some socket → socketIsValid socket = true

theorem entries_valid_apply {e : Effect} (hs : SocketsValid s)
    (happend : ∀ c, e = .append c → socketIsValid c.socket = true) (h : Addr) (c : Client)
    (hc : (s.apply e).entry h = some c) : socketIsValid c.socket = true := by
  rcases s.entry_apply_cases hc with ⟨l, -, -, he⟩ | ⟨c₀, hc₀, hkeeps⟩
  · exact happend c he
  · rw [hkeeps.socket]
    exact hs.entries h c₀ hc₀

theorem socketsValid_acceptor (hs : SocketsValid s) {e : Effect} {pc₀ pc : AcceptorPc}
    (hpc : s.acceptor = pc₀) (hacc : Acceptor.Step s pc₀ e pc) :
    SocketsValid { s.apply e with acceptor := pc } := by
  have hnext := hs.next
  rw [hpc] at hnext
  refine ⟨entries_valid_apply hs fun c he => ?_, fun socket h => ?_⟩
  · cases hacc with
    | appended _ =>
      cases he
      exact hnext _ rfl
    | _ => cases he
  · cases hacc with
    | fault => exact hnext socket h
    | move hmove =>
      cases hmove with
      | connection hsocket =>
        cases h
        exact hsocket
      | admitted _ _ =>
        cases h
        exact hnext _ rfl
      | _ => cases h
    | _ => cases h

theorem socketsValid_init : SocketsValid (.init n) where
  entries h c hc := by cases hc
  next socket h := by cases h

theorem socketsValid_of_reachable (hreach : Reachable step (.init n) s) : SocketsValid s := by
  refine hreach.invariant socketsValid_init fun {s a s'} hs hstep => ?_
  have thread : ∀ {e : Effect}, e.acceptorOnly = false → ∀ h c,
      (s.apply e).entry h = some c → socketIsValid c.socket = true := by
    intro e he
    refine entries_valid_apply hs fun c hc => ?_
    subst hc
    cases he
  cases step_taken hstep with
  | stop => exact ⟨hs.entries, hs.next⟩
  | acceptor hpc hacc => exact socketsValid_acceptor hs hpc hacc
  | broadcast _ hbc => exact ⟨thread hbc.not_acceptorOnly, by simpa using hs.next⟩
  | client _ hcl => exact ⟨thread hcl.not_acceptorOnly, by simpa using hs.next⟩

/-- **Registered clients have a valid socket**: nothing marks it invalid. -/
theorem socket_valid (hreach : Reachable step (.init n) s) {h : Addr} {c : Client}
    (hc : s.entry h = some c) : socketIsValid c.socket = true :=
  (socketsValid_of_reachable hreach).entries h c hc

/-! ### Handles -/

/-- Threads are created for entries that were appended before, each at most once. -/
structure Handles (s : State) : Prop where
  /-- Before the list is created there is nothing. -/
  unborn : s.acceptor = .newList → s.clients = none ∧ ∀ h, s.threads h = none
  /-- The handle of a thread has been given out. -/
  bound : ∀ h t, s.threads h = some t → s.clients.isSome = true → h < s.fresh
  /-- The thread to be created is a new one. -/
  spawning : ∀ h, s.acceptor = .spawn h →
    s.threads h = none ∧ (s.clients.isSome = true → h < s.fresh)

theorem handles_init : Handles (.init n) where
  unborn _ := ⟨rfl, fun _ => rfl⟩
  bound h t ht := by cases ht
  spawning h hh := by cases hh

/-- Effects of threads other than the acceptor do not create a list. -/
theorem clients_apply_none {e : Effect} (he : e.acceptorOnly = false) (hnone : s.clients = none) :
    (s.apply e).clients = none := by
  have hsome := s.isSome_apply (e := e) (by rintro rfl; cases he) (by rintro rfl; cases he)
  rw [hnone] at hsome
  simpa using hsome

/-- A step that creates neither the list nor a thread. -/
theorem Handles.of_le (hs : Handles s)
    (hacc : s'.acceptor = .newList → s.acceptor = .newList ∧ (s.clients = none → s'.clients = none))
    (hspawn : ∀ h, s'.acceptor = .spawn h → s.acceptor = .spawn h)
    (hlist : s'.clients.isSome = true → s.clients.isSome = true ∧ s.fresh ≤ s'.fresh)
    (hthreads : ∀ h, s.threads h = none → s'.threads h = none) : Handles s' := by
  refine ⟨fun h => ?_, fun h t ht hc => ?_, fun h hh => ?_⟩
  · obtain ⟨hnone, hthr⟩ := hs.unborn (hacc h).1
    exact ⟨(hacc h).2 hnone, fun x => hthreads x (hthr x)⟩
  · obtain ⟨hsome, hle⟩ := hlist hc
    cases ht₀ : s.threads h with
    | none =>
      rw [hthreads h ht₀] at ht
      cases ht
    | some t₀ => exact lt_of_lt_of_le (hs.bound h t₀ ht₀ hsome) hle
  · obtain ⟨hnone, hlt⟩ := hs.spawning h (hspawn h hh)
    refine ⟨hthreads h hnone, fun hc => ?_⟩
    obtain ⟨hsome, hle⟩ := hlist hc
    exact lt_of_lt_of_le (hlt hsome) hle

theorem list_grows {e : Effect} (hnew : e ≠ .newList) (hfree : e ≠ .freeList)
    (hsome : (s.apply e).clients.isSome = true) :
    s.clients.isSome = true ∧ s.fresh ≤ (s.apply e).fresh :=
  ⟨s.isSome_apply hnew hfree ▸ hsome, s.fresh_le_apply hnew hfree⟩

theorem Handles.thread (hs : Handles s) {e : Effect} (he : e.acceptorOnly = false)
    (hacc : s'.acceptor = s.acceptor) (happly : s'.clients = (s.apply e).clients)
    (hthreads : ∀ h, s.threads h = none → s'.threads h = none) : Handles s' := by
  refine hs.of_le (fun h => ⟨hacc ▸ h, fun hnone => ?_⟩) (fun h hh => hacc ▸ hh) ?_ hthreads
  · rw [happly, clients_apply_none he hnone]
  · unfold State.fresh
    rw [happly]
    exact list_grows (by rintro rfl; cases he) (by rintro rfl; cases he)

theorem Handles.acceptor (hs : Handles s) {e : Effect} {pc₀ pc : AcceptorPc}
    (hpc : s.acceptor = pc₀) (hacc : Acceptor.Step s pc₀ e pc) :
    Handles { s.apply e with acceptor := pc } := by
  cases hacc with
  | fault => exact hs.of_le (fun h => ⟨hpc ▸ h, id⟩) (fun h hh => hpc ▸ hh) (⟨·, le_rfl⟩) fun _ => id
  | move hmove =>
    refine hs.of_le (fun h => ?_) (fun h hh => ?_) (⟨·, le_rfl⟩) fun _ => id
    · cases hmove <;> cases h
    · cases hmove <;> cases hh
  | newList =>
    obtain ⟨-, hthr⟩ := hs.unborn hpc
    refine ⟨fun h => (by cases h), fun h t ht => ?_, fun h hh => (by cases hh)⟩
    change s.threads h = some t at ht
    rw [hthr h] at ht
    cases ht
  | @appended socket l hl =>
    -- the new handle is above those of all threads
    have hsome : s.clients.isSome = true := by simp [hl]
    have hhandle : s.fresh = l.list.fresh := by simp [State.fresh, hl]
    have hfresh : s.fresh < (s.apply (.append (Acceptor.newClient socket))).fresh := by
      simp [State.apply, State.fresh, hl]
    refine ⟨fun h => (by cases h), fun h t ht _ => ?_, fun h hh => ?_⟩
    · exact lt_trans (hs.bound h t ht hsome) hfresh
    · obtain rfl : l.list.fresh = h := by simpa using hh
      rw [← hhandle]
      refine ⟨?_, fun _ => hfresh⟩
      show s.threads s.fresh = none
      cases ht : s.threads s.fresh with
      | none => rfl
      | some t => exact absurd (hs.bound _ t ht hsome) (lt_irrefl _)
  | @spawned h₀ me =>
    obtain ⟨-, hlt⟩ := hs.spawning h₀ hpc
    refine ⟨fun h => (by cases h), fun h t ht hsome => ?_, fun h hh => (by cases hh)⟩
    rcases State.threads_update ht with ⟨hh, -⟩ | ⟨-, ht⟩
    · exact hh ▸ hlt hsome
    · exact hs.bound h t ht hsome
  | listFreed _ =>
    exact hs.of_le (fun h => (by cases h)) (fun h hh => (by cases hh)) (fun h => (by cases h))
      fun _ => id
  | newQueue | stored | joined | joinedAll | queueFreed =>
    exact hs.of_le (fun h => (by cases h)) (fun h hh => (by cases hh))
      (list_grows (by simp) (by simp)) fun _ => id

theorem handles_of_reachable (hreach : Reachable step (.init n) s) : Handles s := by
  refine hreach.invariant handles_init fun {s a s'} hs hstep => ?_
  cases step_taken hstep with
  | stop => exact ⟨hs.unborn, hs.bound, hs.spawning⟩
  | acceptor hpc hacc => exact hs.acceptor hpc hacc
  | broadcast _ hbc =>
    refine hs.thread hbc.not_acceptorOnly (s.apply_acceptor _) rfl fun h hh => ?_
    show (s.apply _).threads h = none
    rw [s.apply_threads hbc.not_acceptorOnly, hh]
  | @client h₀ _ _ _ _ _ ht hcl =>
    refine hs.thread hcl.not_acceptorOnly (s.apply_acceptor _) rfl fun h hh => ?_
    have hne : h ≠ h₀ := by
      rintro rfl
      rw [ht] at hh
      cases hh
    show Function.update s.threads h₀ _ h = none
    rw [Function.update_of_ne hne, hh]

/-- The handle of a thread is not given out again. -/
theorem Handles.ne_fresh (hs : Handles s) {h : Addr} {t : Thread} (ht : s.threads h = some t)
    (l : ClientList) (hl : s.clients = some l) : h ≠ l.list.fresh := by
  have hlt := hs.bound h t ht (by simp [hl])
  rw [State.fresh, hl, Option.elim_some] at hlt
  exact hlt.ne

/-! ### The cursor of an empty list -/

/-- Removing an entry of the list leaves no cursor behind in an empty one. -/
theorem cursor_of_empty_remove {h : Addr} {i : ℕ} (hi : i < s.registered.length)
    (hempty : (s.apply (.remove h i)).registered = []) :
    (s.apply (.remove h i)).cursor = none := by
  rw [State.registered_remove] at hempty
  have hlen := congrArg List.length hempty
  rw [List.length_eraseIdx_of_lt hi, List.length_nil] at hlen
  rw [State.cursor_remove, if_pos ⟨by omega, List.ne_nil_of_length_pos (by omega)⟩]
  exact List.getElem?_eq_none (by omega)

/-- A search finds entries of the list. -/
theorem lt_of_search {l : ClientList} (hl : s.clients = some l) {p : Client → Bool} {i : ℕ}
    (hsearch : l.search p = some i) : i < s.registered.length := by
  obtain ⟨hi, -⟩ := List.findIdx?_eq_some_iff_findIdx_eq.mp hsearch
  simpa [State.registered, hl] using hi

/-- The cursor of an empty list does not dangle. -/
def EmptyCursor (s : State) : Prop := s.registered = [] → s.cursor = none

theorem emptyCursor_apply {e : Effect} (hs : EmptyCursor s)
    (hremove : ∀ h i, e = .remove h i → i < s.registered.length)
    (hadvance : ∀ h, e = .advance (some h) → s.registered ≠ []) : EmptyCursor (s.apply e) := by
  intro hempty
  cases he : e.onList with
  | false =>
    obtain ⟨hregistered, hcursor, -⟩ := s.list_apply he
    rw [hcursor]
    exact hs (hregistered ▸ hempty)
  | true =>
    cases e with
    | newList => rfl
    | freeList => rfl
    | append c =>
      cases hl : s.clients with
      | none => simp [State.apply, State.cursor, hl]
      | some l =>
        rw [s.registered_append hl] at hempty
        simp at hempty
    | rewind =>
      rw [State.registered_rewind] at hempty
      rw [State.cursor_rewind, if_pos hempty]
      exact hs hempty
    | advance c =>
      rw [State.registered_advance] at hempty
      cases c with
      | none =>
        cases hl : s.clients with
        | none => simp [State.apply, State.cursor, hl]
        | some l => exact s.cursor_advance hl none
      | some h => exact absurd hempty (hadvance h rfl)
    | remove h i => exact cursor_of_empty_remove (hremove h i rfl) hempty
    | _ => cases he

theorem registered_ne_nil {l : ClientList} (hl : s.clients = some l) {l₁ l₂ : List Addr} {h : Addr}
    (hids : l.ids = l₁ ++ h :: l₂) : s.registered ≠ [] := by
  simp [State.registered, hl, hids]

/-- **The cursor of an empty list does not dangle.** -/
theorem cursor_of_empty (hreach : Reachable step (.init n) s) : EmptyCursor s := by
  refine hreach.invariant (fun _ => rfl) fun {s a s'} hs hstep => ?_
  cases step_taken hstep with
  | stop => exact hs
  | @acceptor _ e _ _ _ hacc =>
    suffices EmptyCursor (s.apply e) from this
    cases hacc with
    | joined hl hids _ =>
      exact emptyCursor_apply hs (by simp) fun _ _ => registered_ne_nil hl hids
    | _ => exact emptyCursor_apply hs (by simp) (by simp)
  | @broadcast _ e _ _ _ hbc =>
    suffices EmptyCursor (s.apply e) from this
    cases hbc with
    | fetched hl hids _ =>
      exact emptyCursor_apply hs (by simp) fun _ _ => registered_ne_nil hl hids
    | removed hl _ hsearch =>
      refine emptyCursor_apply hs (fun h i he => ?_) (by simp)
      cases he
      exact lt_of_search hl hsearch
    | _ => exact emptyCursor_apply hs (by simp) (by simp)
  | @client _ _ _ e _ _ _ hcl =>
    suffices EmptyCursor (s.apply e) from this
    cases hcl with
    | removed hl _ hsearch =>
      refine emptyCursor_apply hs (fun h i he => ?_) (by simp)
      cases he
      exact lt_of_search hl hsearch
    | _ => exact emptyCursor_apply hs (by simp) (by simp)

/-! ### The number of clients -/

/-- The limit is kept, and there is room for a client that passed the test.  The test
is made without the lock, but nobody except the acceptor makes the list longer. -/
structure Capped (n : ℕ) (s : State) : Prop where
  limit : s.maxConnections = n
  registered : s.registered.length ≤ n
  room : ∀ socket, s.acceptor = .append socket → s.registered.length < n

theorem capped_init : Capped n (.init n) where
  limit := rfl
  registered := Nat.zero_le n
  room socket h := by cases h

/-- A step that appends nothing and does not pass the test. -/
theorem Capped.of_le (hs : Capped n s) (hlimit : s'.maxConnections = s.maxConnections)
    (hle : s'.registered.length ≤ s.registered.length)
    (hacc : ∀ socket, s'.acceptor = .append socket → s.acceptor = .append socket) :
    Capped n s' where
  limit := hlimit.trans hs.limit
  registered := hle.trans hs.registered
  room socket h := by
    have hroom := hs.room socket (hacc socket h)
    omega

theorem Capped.acceptor (hs : Capped n s) {e : Effect} {pc₀ pc : AcceptorPc}
    (hpc : s.acceptor = pc₀) (hacc : Acceptor.Step s pc₀ e pc) :
    Capped n { s.apply e with acceptor := pc } := by
  have hlimit := s.apply_maxConnections e
  cases hacc with
  | fault => exact hs.of_le hlimit le_rfl fun socket h => hpc.trans h
  | @appended socket l hl =>
    have hroom := hs.room socket hpc
    refine ⟨hlimit.trans hs.limit, ?_, fun _ h => by cases h⟩
    show (s.apply (.append _)).registered.length ≤ n
    rw [s.registered_append hl, List.length_append, List.length_singleton]
    omega
  | move hmove =>
    cases hmove with
    | @admitted socket l hl hroom =>
      refine ⟨hlimit.trans hs.limit, hs.registered, fun _ _ => ?_⟩
      rw [l.repr.length, hs.limit] at hroom
      show s.registered.length < n
      simpa [State.registered, hl] using hroom
    | _ => exact hs.of_le hlimit le_rfl fun _ h => by cases h
  | _ =>
    exact hs.of_le hlimit (s.length_registered_apply_le fun _ h => by cases h)
      fun _ h => by cases h

theorem capped_of_reachable (hreach : Reachable step (.init n) s) : Capped n s := by
  refine hreach.invariant capped_init ?_
  intro s a s' hs hstep
  -- the other threads can only make the list shorter
  have other : ∀ {e : Effect}, e.acceptorOnly = false →
      (s.apply e).registered.length ≤ s.registered.length := by
    intro e he
    refine s.length_registered_apply_le ?_
    rintro c rfl
    cases he
  cases step_taken hstep with
  | stop => exact hs.of_le rfl le_rfl fun _ h => h
  | acceptor hpc hacc => exact hs.acceptor hpc hacc
  | broadcast _ hbc =>
    refine hs.of_le (s.apply_maxConnections _) (other hbc.not_acceptorOnly) ?_
    intro socket h
    exact (s.apply_acceptor _).symm.trans h
  | client _ hcl =>
    refine hs.of_le (s.apply_maxConnections _) (other hcl.not_acceptorOnly) ?_
    intro socket h
    exact (s.apply_acceptor _).symm.trans h

/-- **The limit on the connections is kept** in every run: the limit is the one of the
configuration, and the list of clients never has more entries. -/
theorem registered_le_maxConnections (hreach : Reachable step (.init n) s) :
    s.maxConnections = n ∧ s.registered.length ≤ s.maxConnections := by
  have hs := capped_of_reachable hreach
  refine ⟨hs.limit, ?_⟩
  rw [hs.limit]
  exact hs.registered

/-- A client is connected, which is all that a limit of one allows. -/
theorem registered_le_maxConnections_one :
    ∃ s, Reachable step (.init 1) s ∧ s.registered = [0] ∧
      s.registered.length ≤ s.maxConnections := by
  obtain ⟨s, hreach, hs⟩ : ∃ s, Reachable step (.init 1) s ∧ (s.registered == [0]) = true :=
    Reachable.of_any (Script.startUp ++ Script.connect 11) (by decide +kernel)
  exact ⟨s, hreach, eq_of_beq hs, (registered_le_maxConnections hreach).2⟩

end C2Hat
