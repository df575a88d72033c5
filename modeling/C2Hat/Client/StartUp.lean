import C2Hat.Client.App

/-!
# Starting the client

`App_start` creates the listening thread before `App_run` stores the identifier of the main
thread, to which the listening thread sends its signals.  Nothing orders the two: a message
of the server, or the end of the connection, may come before the identifier is there, and the
signal is then sent to the thread `0`.

## Main definitions

* `Client.leavesWait` — the steps with which the listening thread stops to wait for the
  server.
* `Client.StoredFirst` — these steps are taken after the identifier has been stored.

## Main results

* `kill_after_stored` — **every signal is sent to the main thread** in a run with these
  steps, and any other such step can be followed by a signal to no thread.
-/

namespace C2Hat

open Runs

namespace Client

/-- The places of the listening thread between two messages of the server. -/
def ListenerPlace.waits : ListenerPlace → Bool
  | .notCreated | .testTerminate | .testSocket | .selecting | .sleeping => true
  | _ => false

/-- The places from which a signal is sent. -/
def ListenerPlace.kills : ListenerPlace → Bool
  | .killUpdate | .killTerm => true
  | _ => false

/-- The listening thread stops to wait: it finds `terminate` set or the socket not valid,
`select` fails other than through a signal, or there is something to receive. -/
def leavesWait (s : State) (a : Action) : Bool :=
  match s.listener, a with
  | .testTerminate, .listener .go => s.appTerminate
  | .testSocket, .listener (.socket valid) => !valid
  | .selecting, .listener .error => true
  | .selecting, .listener (.ready isSet) => isSet
  | _, _ => false

/-- The listening thread stops to wait only when `App_run` has stored the identifier. -/
def StoredFirst (s : State) (a : Action) : Prop := leavesWait s a = true → s.mainThreadID = true

instance (s : State) (a : Action) : Decidable (StoredFirst s a) :=
  inferInstanceAs (Decidable (_ → _))

variable {s s' : State}

/-- The listening thread goes on waiting. -/
theorem listenerStep_waits {input : ListenerInput} (h : listenerStep s input = some s')
    (hwaits : s.listener.waits = true) (hstays : leavesWait s (.listener input) = false) :
    s'.listener.waits = true := by
  fun_cases listenerStep s input
  all_goals simp only [listenerStep, *, Option.some.injEq, reduceCtorEq] at h
  all_goals subst h
  all_goals simp_all [leavesWait, ListenerPlace.waits]

/-- As long as the identifier is not stored the listening thread waits. -/
def WaitsFirst (s : State) : Prop := s.mainThreadID = false → s.listener.waits = true

theorem WaitsFirst.step {a : Action} (hw : WaitsFirst s) (hC : StoredFirst s a)
    (h : step s a = some s') : WaitsFirst s' := by
  obtain ⟨-, ⟨input, rfl, hstep⟩ | ⟨input, rfl, hstep⟩ | ⟨rfl, -, rfl⟩ | ⟨rfl, -, rfl⟩ |
    ⟨signal, onMain, rfl, rfl⟩⟩ := step_cases h
  · intro hstored
    obtain ⟨hlistener, hkept⟩ := mainStep_listener hstep
    rcases hlistener with hsame | htest
    · rw [hsame]
      refine hw ?_
      by_contra hid
      simp [hkept (by simpa using hid)] at hstored
    · rw [htest]
      rfl
  · intro hstored
    rw [listenerStep_stored hstep] at hstored
    refine listenerStep_waits hstep (hw hstored) ?_
    by_contra hleaves
    simp [hC (by simpa using hleaves)] at hstored
  · simpa [WaitsFirst] using hw
  · simpa [WaitsFirst] using hw
  · cases onMain <;> simpa [WaitsFirst] using hw

/-- Behind the loop there is nothing in front of the last signal. -/
theorem exists_kill_of_closing (hcrashed : s.crashed = false) (hstored : s.mainThreadID = false)
    (hclosing : s.listener = .closing) :
    ∃ t t', Reachable step s t ∧ step t (.listener .go) = some t' ∧
      t.listener.kills = true ∧ t.mainThreadID = false := by
  have hrun : step s (.listener .go) = some { s with listener := .killTerm } := by
    simp [step, listenerStep, hcrashed, hclosing]
  have hkill : step { s with listener := .killTerm } (.listener .go) =
      some (pthreadKill { s with listener := .killTerm }
        { s with pendingTerm := true, listener := .exited }) := by
    simp [step, listenerStep, hcrashed]
  exact ⟨_, _, Reachable.refl.tail hrun, hkill, rfl, hstored⟩

/-- What there is to receive may be the end of the connection. -/
theorem exists_kill_of_receiving (hcrashed : s.crashed = false) (hstored : s.mainThreadID = false)
    (hreceiving : s.listener = .receiving) :
    ∃ t t', Reachable step s t ∧ step t (.listener .go) = some t' ∧
      t.listener.kills = true ∧ t.mainThreadID = false := by
  have hend : step s (.listener (.received none)) =
      some { s with appTerminate := true, listener := .closing } := by
    simp [step, listenerStep, hcrashed, hreceiving]
  obtain ⟨t, t', hreach, hkill⟩ :=
    exists_kill_of_closing (s := { s with appTerminate := true, listener := .closing })
      hcrashed hstored rfl
  exact ⟨t, t', (Reachable.refl.tail hend).trans hreach, hkill⟩

/-- Where the listening thread is when it has stopped to wait. -/
theorem listenerStep_leaves {input : ListenerInput} (h : listenerStep s input = some s')
    (hleaves : leavesWait s (.listener input) = true) :
    (s'.listener = .closing ∨ s'.listener = .receiving) ∧ s'.crashed = s.crashed := by
  fun_cases listenerStep s input
  all_goals simp only [listenerStep, *, Option.some.injEq, reduceCtorEq] at h
  all_goals subst h
  all_goals simp_all [leavesWait]

/-- Once the listening thread has left its wait it comes to a signal by itself. -/
theorem exists_kill {a : Action} (hleaves : leavesWait s a = true)
    (hstored : s.mainThreadID = false) (h : step s a = some s') :
    ∃ t t', Reachable step s' t ∧ step t (.listener .go) = some t' ∧
      t.listener.kills = true ∧ t.mainThreadID = false := by
  have hcrashed := (step_cases h).1
  obtain ⟨input, rfl⟩ : ∃ input, a = .listener input := by
    cases a with
    | listener input => exact ⟨input, rfl⟩
    | _ => simp [leavesWait] at hleaves
  have hstep : listenerStep s input = some s' := by
    simpa [step, hcrashed] using h
  obtain ⟨hplace, hcrashed'⟩ := listenerStep_leaves hstep hleaves
  have hstored' := (listenerStep_stored hstep).trans hstored
  rcases hplace with hclosing | hreceiving
  · exact exists_kill_of_closing (hcrashed'.trans hcrashed) hstored' hclosing
  · exact exists_kill_of_receiving (hcrashed'.trans hcrashed) hstored' hreceiving

/-- **Start-up order.**  In a run in which the listening thread stops to wait only when the
identifier of the main thread is stored, every signal is sent after that; and when it stops
to wait before, a signal may be sent to no thread. -/
theorem kill_after_stored (lines cols : ℤ) :
    (∀ s s', Reachable (restrict step StoredFirst) (init lines cols) s →
      step s (.listener .go) = some s' → s.listener.kills = true → s.mainThreadID = true) ∧
    (∀ s a s', Reachable step (init lines cols) s → step s a = some s' → ¬ StoredFirst s a →
      ∃ t t', Reachable step s' t ∧ step t (.listener .go) = some t' ∧
        t.listener.kills = true ∧ t.mainThreadID = false) := by
  constructor
  · intro s s' hreach h hkills
    have hw : WaitsFirst s := by
      refine hreach.invariant_restrict (P := WaitsFirst) (fun _ => rfl) ?_
      intro s₁ a s₂ _ hw hC h
      exact hw.step hC h
    by_contra hstored
    have hwaits := hw (by simpa using hstored)
    cases hp : s.listener <;> simp_all [ListenerPlace.waits, ListenerPlace.kills]
  · intro s a s' _ h hC
    simp only [StoredFirst, Classical.not_imp, Bool.not_eq_true] at hC
    exact exists_kill hC.1 hC.2 h

/-- A message that is there before the client has started up. -/
theorem not_kill_after_stored_early : ¬ ∀ (lines cols : ℤ) (s s' : State),
    Reachable step (init lines cols) s → step s (.listener .go) = some s' →
      s.listener.kills = true → s.mainThreadID = true := by
  intro h
  obtain ⟨s, hreach, hs⟩ : ∃ s, Reachable step (init 24 100) s ∧
      (s.listener.kills && !s.mainThreadID && (step s (.listener .go)).isSome) = true :=
    Reachable.of_any [.main (.create true), .listener .go, .listener (.socket true),
      .listener (.ready true), .listener (.received (some [⟨.ok, .empty, .empty⟩])),
      .listener .go, .listener .go]
      (by decide +kernel)
  simp only [Bool.and_eq_true, Bool.not_eq_true'] at hs
  obtain ⟨s', hs'⟩ := Option.isSome_iff_exists.mp hs.2
  rw [h _ _ s s' hreach hs' hs.1.1] at hs
  cases hs.1.2

end Client

end C2Hat
