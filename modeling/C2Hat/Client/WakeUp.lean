import C2Hat.Client.App

/-!
# Waking up the input loop

The `SIGUSR2` of the listening thread sets a flag that `UIInputLoop` looks at only when
`wget_wch` has failed.  A signal that comes while a key is handled, or anywhere else between
the test of the flag and the next `wget_wch`, leaves the flag set, and the main thread blocks
with the messages in the queue.  On a screen that is too small the flag is cleared without a
look at the queue.

## Main definitions

* `Client.attends` — the places from which the main thread comes to the queue before it
  blocks again.
* `Client.Noticed` — the signals are delivered at these places, and the flag is tested on a
  big screen.

## Main results

* `no_lost_wakeup` — **the main thread never blocks with a message it was told of** in a run
  with these steps, and any other such step can be followed by a state in which it does.
-/

namespace C2Hat

open Runs

namespace Client

/-- A message whose `SIGUSR2` has been delivered is in the queue. -/
def State.unread (s : State) : Bool := s.queue.any fun e => e.stage == .notified

/-- A message whose `SIGUSR2` is pending is in the queue. -/
def State.waiting (s : State) : Bool := s.queue.any fun e => e.stage == .announced

/-- The main thread comes to `App_updateHandler` before it blocks again, if the flag is set
now and the screen is big enough, or it never blocks again. -/
def attends (s : State) : Bool :=
  match s.main with
  | .reading | .failed _ | .testUpdate _ | .clearUpdate | .testScreen | .updating => true
  | .handling .f1 | .testErrno false | .leaving => true
  | .entering => false
  | .starting | .created | .runLoop | .committed => s.appTerminate || s.uiTerminate
  | .inputLoop | .testResize _ | .clearResize | .testErrno true | .handling _ => s.uiTerminate

/-- A `SIGUSR2` for messages that are still in the queue is delivered where the main thread
attends to it, and the flag is not cleared on a screen that is too small while such messages
are in the queue. -/
def Noticed (s : State) (a : Action) : Prop :=
  (a = .deliver .usr2 → s.waiting = true → attends s = true) ∧
  (a = .main .go → s.main = .testScreen → s.unread = true →
    s.screen.isBigEnough = true ∨ s.uiTerminate = true)

instance (s : State) (a : Action) : Decidable (Noticed s a) :=
  inferInstanceAs (Decidable (_ ∧ _))

/-- The main thread is blocked in `wget_wch` on a screen that is big enough, and a message
whose `SIGUSR2` has been delivered is in the queue. -/
def Lost (s : State) : Prop :=
  s.main = .reading ∧ s.screen.isBigEnough = true ∧ s.unread = true

/-- The main thread comes to the queue before it blocks, or it never blocks again. -/
def settled (s : State) : Bool :=
  match s.main with
  | .reading => false
  | .failed _ | .testUpdate _ => s.update
  | _ => attends s

/-- What holds as long as the signals are noticed. -/
def Attended (s : State) : Prop := s.unread = true → settled s = true

variable {s s' : State}

/-- The queue gets no message that has been told of, other than by a signal. -/
theorem mainStep_unread {input : MainInput} (h : mainStep s input = some s')
    (hu : s'.unread = true) : s.unread = true := by
  fun_cases mainStep s input
  all_goals simp only [mainStep, *, Option.some.injEq, reduceCtorEq] at h
  all_goals subst h
  case case14 e queue _ hqueue =>
    rw [State.unread, hqueue, List.any_cons]
    exact Bool.or_eq_true_iff.mpr (.inr hu)
  case case13 => simp [State.unread] at hu
  all_goals exact hu

theorem Attended.mainStep {input : MainInput} (hs : Attended s) (hC : Noticed s (.main input))
    (h : mainStep s input = some s') : Attended s' := by
  intro hu'
  have hu := mainStep_unread h hu'
  have hsettled := hs hu
  have hscreen := fun hgo hplace => hC.2 hgo hplace hu
  fun_cases Client.mainStep s input
  all_goals simp only [Client.mainStep, *, Option.some.injEq, reduceCtorEq] at h
  all_goals subst h
  all_goals simp only [settled, attends, testTerminate, *] at hsettled hscreen ⊢
  all_goals clear hC hs
  case case4 => cases happ : s.appTerminate <;> simp_all
  case case9 => cases hui : s.uiTerminate <;> simp_all
  case case12 => cases hbig : s.screen.isBigEnough <;> simp_all
  case case13 hqueue => simp [State.unread, hqueue] at hu
  case case15 eintr _ => cases hresize : s.resize <;> cases eintr <;> simp_all
  case case17 eintr _ => cases eintr <;> simp_all
  case case20 charRead _ => by_cases hread : charRead = 0 <;> simp_all
  case case22 outcome _ => by_cases hleft : outcome = .quit ∨ outcome = .failed <;> simp_all
  all_goals simp_all

theorem any_map_announce (queue : List Entry) :
    ((queue.map Entry.announce).any fun e => e.stage == .notified) =
      queue.any fun e => e.stage == .notified := by
  rw [List.any_map]
  congr 1
  funext e
  cases hstage : e.stage <;> simp [Entry.announce, hstage]

/-- What the listening thread does leaves the main thread where it is, and pushes messages
that the main thread has not been told of. -/
theorem listenerStep_frame {input : ListenerInput} (h : listenerStep s input = some s') :
    s'.unread = s.unread ∧ s'.main = s.main ∧ s'.update = s.update ∧
      s'.uiTerminate = s.uiTerminate ∧ (s.appTerminate = true → s'.appTerminate = true) := by
  fun_cases listenerStep s input
  all_goals simp only [listenerStep, *, Option.some.injEq, reduceCtorEq] at h
  all_goals subst h
  case case9 => simp [State.unread]
  case case10 =>
    unfold pthreadKill
    split
    · exact ⟨any_map_announce _, rfl, rfl, rfl, id⟩
    · exact ⟨rfl, rfl, rfl, rfl, id⟩
  case case13 =>
    unfold pthreadKill
    split <;> simp [State.unread]
  all_goals simp [State.unread]

/-- What is settled stays so when flags are set. -/
theorem settled_mono (hmain : s'.main = s.main) (hupdate : s.update = true → s'.update = true)
    (hui : s.uiTerminate = true → s'.uiTerminate = true)
    (happ : s.appTerminate = true → s'.appTerminate = true) (h : settled s = true) :
    settled s' = true := by
  unfold settled attends at *
  rw [hmain]
  cases hplace : s.main
  case testErrno eintr => cases eintr <;> simp_all
  case handling key => cases key <;> simp_all
  case starting | created | runLoop | committed =>
    simp only [hplace, Bool.or_eq_true] at h ⊢
    exact h.imp happ hui
  all_goals simp_all

/-- The main thread is told of messages: when it is blocked it wakes up, with the flag set. -/
theorem settled_interruptRead (hupdate : s.update = true) (h : attends s = true) :
    settled (interruptRead s) = true := by
  rw [interruptRead_eq]
  by_cases hreading : s.main = .reading
  · simp [settled, hreading, hupdate]
  · rw [if_neg hreading]
    unfold settled
    split
    · contradiction
    · exact hupdate
    · exact hupdate
    · exact h

theorem attends_of_settled (h : settled s = true) : attends s = true := by
  unfold settled at h
  split at h
  · cases h
  · next hplace => simp [attends, hplace]
  · next hplace => simp [attends, hplace]
  · exact h

/-- A message the main thread was not told of before is one whose signal was pending. -/
theorem unread_notify (h : (s.queue.map Entry.notify).any (fun e => e.stage == .notified) = true) :
    s.unread = true ∨ s.waiting = true := by
  obtain ⟨e', he', hstage⟩ := List.any_eq_true.mp h
  obtain ⟨e, he, rfl⟩ := List.mem_map.mp he'
  by_cases hannounced : e.stage = .announced
  · exact .inr (List.any_eq_true.mpr ⟨e, he, by simp [hannounced]⟩)
  · rw [Entry.notify, if_neg hannounced] at hstage
    exact .inl (List.any_eq_true.mpr ⟨e, he, hstage⟩)

/-- A signal that is handled anywhere. -/
theorem Attended.handleSignal (hs : Attended s) (signal : Signal) :
    Attended (handleSignal s signal) := by
  intro hu
  refine settled_mono main_handleSignal ?_ ?_ ?_ (hs (by simpa [State.unread] using hu))
  all_goals cases signal <;> simp [Client.handleSignal]

/-- A read that is interrupted while nothing is unread. -/
theorem Attended.interruptRead (hs : Attended s) : Attended (interruptRead s) := by
  intro hu
  have hsettled := hs (by simpa [State.unread] using hu)
  have hreading : s.main ≠ .reading := fun h => by simp [settled, h] at hsettled
  rw [interruptRead_eq, if_neg hreading]
  exact hsettled

theorem Attended.step {a : Action} (hs : Attended s) (hC : Noticed s a)
    (h : step s a = some s') : Attended s' := by
  obtain ⟨-, ⟨input, rfl, hstep⟩ | ⟨input, rfl, hstep⟩ | ⟨rfl, -, rfl⟩ | ⟨rfl, -, rfl⟩ |
    ⟨signal, onMain, rfl, rfl⟩⟩ := step_cases h
  · exact hs.mainStep hC hstep
  · intro hu
    obtain ⟨hunread, hmain, hupdate, hui, happ⟩ := listenerStep_frame hstep
    rw [hunread] at hu
    exact settled_mono hmain (hupdate ▸ id) (hui ▸ id) happ (hs hu)
  · intro hu
    have hattends : attends s = true := by
      rcases unread_notify (s := s) (by simpa [State.unread] using hu) with hunread | hwaiting
      · exact attends_of_settled (hs hunread)
      · exact hC.1 rfl hwaiting
    exact settled_interruptRead rfl hattends
  · have hs' : Attended { s with pendingTerm := false } := hs
    exact (hs'.handleSignal .term).interruptRead
  · cases onMain with
    | false => exact hs.handleSignal signal
    | true => exact (hs.handleSignal signal).interruptRead

/-! ### Steps that are not noticed -/

/-- The main thread will go on to read keys, and there is a message in the queue it has been
told of. -/
structure Blind (s : State) : Prop where
  crashed : s.crashed = false
  unread : s.unread = true
  appTerminate : s.appTerminate = false
  uiTerminate : s.uiTerminate = false
  handle : s.screen.handle = true

/-- From the next test of `terminate` on. -/
theorem exists_lost_of_inputLoop (hs : Blind s) (hmain : s.main = .inputLoop) :
    ∃ t, Reachable step s t ∧ Lost t := by
  obtain ⟨hcrashed, hunread, happ, hui, hhandle⟩ := hs
  have hread : Reachable step s { s with main := .reading } := by
    refine ⟨[.main .go, .main .go], ?_⟩
    simp [run, step, mainStep, testTerminate, hcrashed, hmain, happ, hui]
  by_cases hbig : s.screen.isBigEnough = true
  · exact ⟨_, hread, rfl, hbig, hunread⟩
  · -- the terminal is made bigger
    have hresize : Reachable step { s with main := .reading }
        { s with main := .reading, screen := { s.screen with lines := 24, cols := 100 } } := by
      refine ⟨[.main (.key .resize), .main (.size 24 100), .main .go, .main .go], ?_⟩
      simp [run, step, mainStep, testTerminate, hcrashed, happ, hui]
    refine ⟨_, hread.trans hresize, rfl, ?_, hunread⟩
    simp [UIScreen.isBigEnough, UIScreen.inputLines, hhandle, kMinTerminalLines, kMinTerminalCols,
      kWideTerminalCols, kMaxMessageLength]

/-- The main thread comes to that test without looking at the queue. -/
theorem exists_inputLoop (hs : Blind s) (hattends : attends s = false) :
    ∃ t, Reachable step s t ∧ Blind t ∧ t.main = .inputLoop := by
  obtain ⟨hcrashed, hunread, happ, hui, hhandle⟩ := hs
  cases hplace : s.main with
  | starting =>
    refine ⟨{ s with main := .inputLoop, listener := .testTerminate, mainThreadID := true },
      ⟨[.main (.create true), .main .go, .main .go], ?_⟩, ⟨hcrashed, hunread, happ, hui, hhandle⟩,
      rfl⟩
    simp [run, step, mainStep, hcrashed, hplace, happ]
  | created =>
    refine ⟨{ s with main := .inputLoop, mainThreadID := true }, ⟨[.main .go, .main .go], ?_⟩,
      ⟨hcrashed, hunread, happ, hui, hhandle⟩, rfl⟩
    simp [run, step, mainStep, hcrashed, hplace, happ]
  | runLoop =>
    refine ⟨{ s with main := .inputLoop }, ⟨[.main .go], ?_⟩,
      ⟨hcrashed, hunread, happ, hui, hhandle⟩, rfl⟩
    simp [run, step, mainStep, hcrashed, hplace, happ]
  | committed =>
    refine ⟨{ s with main := .inputLoop }, ⟨[.main (.sent .empty), .main .go], ?_⟩,
      ⟨hcrashed, hunread, happ, hui, hhandle⟩, rfl⟩
    simp [run, step, mainStep, hcrashed, hplace, happ]
  | inputLoop => exact ⟨s, .refl, ⟨hcrashed, hunread, happ, hui, hhandle⟩, hplace⟩
  | entering =>
    -- it blocks, and a key is read
    refine ⟨{ s with main := .inputLoop }, ⟨[.main .go, .main (.key .other), .main .go], ?_⟩,
      ⟨hcrashed, hunread, happ, hui, hhandle⟩, rfl⟩
    simp [run, step, mainStep, hcrashed, hplace]
  | testResize eintr =>
    -- the terminal is resized
    refine ⟨{ s with
        main := .inputLoop
        resize := false
        screen := { s.screen with lines := 24, cols := 100 } },
      ⟨[.outside .winch false, .main .go, .main .go, .main (.size 24 100)], ?_⟩,
      ⟨hcrashed, hunread, happ, hui, hhandle⟩, rfl⟩
    simp [run, step, mainStep, handleSignal, hcrashed, hplace]
  | clearResize =>
    refine ⟨{ s with
        main := .inputLoop
        resize := false
        screen := { s.screen with lines := 24, cols := 100 } },
      ⟨[.main .go, .main (.size 24 100)], ?_⟩, ⟨hcrashed, hunread, happ, hui, hhandle⟩, rfl⟩
    simp [run, step, mainStep, hcrashed, hplace]
  | testErrno eintr =>
    obtain rfl : eintr = true := by
      cases eintr with
      | true => rfl
      | false => simp [attends, hplace] at hattends
    refine ⟨{ s with main := .inputLoop }, ⟨[.main .go], ?_⟩,
      ⟨hcrashed, hunread, happ, hui, hhandle⟩, rfl⟩
    simp [run, step, mainStep, hcrashed, hplace]
  | handling key =>
    cases key with
    | f1 => simp [attends, hplace] at hattends
    | resize =>
      refine ⟨{ s with
          main := .inputLoop
          screen := { s.screen with lines := 24, cols := 100 } },
        ⟨[.main (.size 24 100)], ?_⟩, ⟨hcrashed, hunread, happ, hui, hhandle⟩, rfl⟩
      simp [run, step, mainStep, hcrashed, hplace]
    | enter =>
      refine ⟨{ s with main := .inputLoop }, ⟨[.main (.commit 0)], ?_⟩,
        ⟨hcrashed, hunread, happ, hui, hhandle⟩, rfl⟩
      simp [run, step, mainStep, hcrashed, hplace]
    | other =>
      refine ⟨{ s with main := .inputLoop }, ⟨[.main .go], ?_⟩,
        ⟨hcrashed, hunread, happ, hui, hhandle⟩, rfl⟩
      simp [run, step, mainStep, hcrashed, hplace]
  | reading | failed | testUpdate | clearUpdate | testScreen | updating | leaving =>
    simp [attends, hplace] at hattends

theorem exists_lost (hs : Blind s) (hattends : attends s = false) :
    ∃ t, Reachable step s t ∧ Lost t := by
  obtain ⟨t, hreach, ht, hmain⟩ := exists_inputLoop hs hattends
  obtain ⟨t', hreach', hlost⟩ := exists_lost_of_inputLoop ht hmain
  exact ⟨t', hreach.trans hreach', hlost⟩

/-- The window of the screen stays. -/
theorem handle_step {a : Action} (hhandle : s.screen.handle = true) (h : step s a = some s') :
    s'.screen.handle = true := by
  obtain ⟨-, ⟨input, rfl, hstep⟩ | ⟨input, rfl, hstep⟩ | ⟨rfl, -, rfl⟩ | ⟨rfl, -, rfl⟩ |
    ⟨signal, onMain, rfl, rfl⟩⟩ := step_cases h
  · fun_cases mainStep s input
    all_goals simp only [mainStep, *, Option.some.injEq, reduceCtorEq] at hstep
    all_goals subst hstep
    all_goals first | exact hhandle | rfl
  · fun_cases listenerStep s input
    all_goals simp only [listenerStep, *, Option.some.injEq, reduceCtorEq] at hstep
    all_goals subst hstep
    all_goals simp [pthreadKill, hhandle, apply_ite State.screen]
  · simpa [interruptRead_eq] using hhandle
  · simpa [interruptRead_eq] using hhandle
  · cases onMain <;> simpa [interruptRead_eq] using hhandle

/-- The message of a signal that is not noticed is lost, unless the client is being
terminated. -/
theorem exists_lost_of_not_noticed {a : Action} (hhandle : s.screen.handle = true)
    (happ : s.appTerminate = false) (hui : s.uiTerminate = false) (hC : ¬ Noticed s a)
    (h : step s a = some s') : ∃ t, Reachable step s' t ∧ Lost t := by
  obtain ⟨hcrashed, hcases⟩ := step_cases h
  simp only [Noticed, not_and_or, Classical.not_imp, not_or, Bool.not_eq_true] at hC
  obtain ⟨rfl, hwaiting, hattends⟩ | ⟨rfl, hplace, hunread, hbig, -⟩ := hC
  · obtain ⟨_, hd, _⟩ | ⟨_, hd, _⟩ | ⟨-, -, rfl⟩ | ⟨hd, _⟩ | ⟨_, _, hd, _⟩ := hcases
    case inr.inr.inl =>
      -- the main thread is not blocked: the signal sets the flag, and that is all
      have hreading : s.main ≠ .reading := fun hplace => by simp [attends, hplace] at hattends
      rw [interruptRead_eq, main_handleSignal, if_neg hreading]
      refine exists_lost ⟨hcrashed, ?_, happ, hui, hhandle⟩ hattends
      obtain ⟨e, he, hstage⟩ := List.any_eq_true.mp hwaiting
      refine List.any_eq_true.mpr ⟨e.notify, List.mem_map_of_mem he, ?_⟩
      rw [beq_iff_eq] at hstage
      simp [Entry.notify, hstage]
    all_goals cases hd
  · obtain rfl : { s with main := .inputLoop } = s' := by
      simpa [step, mainStep, hcrashed, hplace, hbig] using h
    exact exists_lost_of_inputLoop ⟨hcrashed, hunread, happ, hui, hhandle⟩ rfl

/-- **No lost wake-up.**  In a run in which every signal is noticed the main thread does not
block on a screen that is big enough with a message in the queue it was told of; and after a
signal that is not noticed it may, unless the client is being terminated. -/
theorem no_lost_wakeup (lines cols : ℤ) :
    (∀ s, Reachable (restrict step Noticed) (init lines cols) s → ¬ Lost s) ∧
    (∀ s a s', Reachable step (init lines cols) s → step s a = some s' → ¬ Noticed s a →
      s.appTerminate = false → s.uiTerminate = false →
        ∃ t, Reachable step s' t ∧ Lost t) := by
  constructor
  · intro s hreach hlost
    have hs : Attended s := by
      refine hreach.invariant_restrict (P := Attended) (fun hu => by cases hu) ?_
      intro s₁ a s₂ _ hs hC h
      exact hs.step hC h
    have hsettled := hs hlost.2.2
    simp [settled, hlost.1] at hsettled
  · intro s a s' hreach h hC happ hui
    refine exists_lost_of_not_noticed ?_ happ hui hC h
    exact hreach.invariant (P := fun s => s.screen.handle = true) rfl handle_step

/-- A message that comes while a key is handled. -/
theorem not_no_lost_wakeup_key : ¬ ∀ (lines cols : ℤ) (s : State),
    Reachable step (init lines cols) s → ¬ Lost s := by
  intro h
  obtain ⟨s, hreach, hs⟩ : ∃ s, Reachable step (init 24 100) s ∧
      (s.main == .reading && s.screen.isBigEnough && s.unread) = true :=
    Reachable.of_any [.main (.create true), .main .go, .main .go, .main .go, .main .go,
      .listener .go, .listener (.socket true), .listener (.ready true),
      .listener (.received (some [⟨.ok, .empty, .empty⟩])), .listener .go, .listener .go,
      .main (.key .other), .listener .go, .deliver .usr2, .main .go, .main .go, .main .go]
      (by decide +kernel)
  simp only [Bool.and_eq_true, beq_iff_eq] at hs
  exact h _ _ s hreach ⟨hs.1.1, hs.1.2, hs.2⟩

end Client

end C2Hat
