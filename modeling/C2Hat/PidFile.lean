import Mathlib.Logic.Function.Basic
import C2Hat.Lib.Decimal
import C2Hat.Lib.Run

/-!
# The PID file

`PID_init` of `src/server/pid.c`, and the exit handler `clean` of `src/server/commands.c`, in two
`start` commands with the same path.  Each command tests whether there is a file, makes the
directory, opens the file, writes its PID into it, and removes the file when it exits.  Another
command may come between any two of these steps.

## Main definitions

* `PidFile.State`, `PidFile.step` — the file and the two commands.
* `PidFile.Apart` — no command tests for the file while the other one is about to open it.

## Main results

* `pidFile_lock` — **the file is a lock** in a run with such tests, and any other test can be
  followed by the return of both commands from `PID_init`.
-/

namespace C2Hat

open Clib Runs

namespace PidFile

/-- The two `start` commands. -/
inductive Cmd
  | first
  | second
  deriving DecidableEq

/-- The other command. -/
def Cmd.other : Cmd → Cmd
  | .first => .second
  | .second => .first

/-- Where a command is: what it has done last. -/
inductive Stage
  /-- In front of `PID_init`. -/
  | start
  /-- `access` has not found the file. -/
  | checked
  /-- `TouchDir` has returned `true`. -/
  | dirReady
  /-- `fopen` has opened the file with this inode. -/
  | opened (inode : ℕ)
  /-- `PID_init` has returned. -/
  | returned
  /-- `serverStartedSuccessfully` is set. -/
  | started
  | exited
  deriving DecidableEq

/-- The command is between its test for the file and the opening of it. -/
def Stage.opening : Stage → Bool
  | .checked | .dirReady => true
  | _ => false

/-- `PID_init` has returned, and the command has not exited. -/
def Stage.holds : Stage → Bool
  | .returned | .started => true
  | _ => false

/-- The command has passed its test, and has not exited. -/
def Stage.active : Stage → Bool
  | .start | .exited => false
  | _ => true

/-- The file system and the commands. -/
structure State where
  /-- The inode the path names. -/
  path : Option ℕ
  content : ℕ → Bytes
  /-- How many inodes there are. -/
  inodes : ℕ
  stage : Cmd → Stage
  /-- History: the commands whose `PID_init` has returned. -/
  hasReturned : Cmd → Bool
  /-- History: who has removed the file, and what was in it. -/
  removals : List (Cmd × Bytes)
  /-- History: a test for the file came after a removal and has not found it. -/
  restarted : Bool

/-- There is no file. -/
def init : State where
  path := none
  content _ := []
  inodes := 0
  stage _ := .start
  hasReturned _ := false
  removals := []
  restarted := false

/-- A command goes on. -/
def State.goTo (s : State) (c : Cmd) (stage : Stage) : State :=
  { s with stage := Function.update s.stage c stage }

/-- `fopen(path, "w")`: the inode, which is empty now. -/
def State.create (s : State) : ℕ × State :=
  match s.path with
  | some i => (i, { s with content := Function.update s.content i [] })
  | none =>
    (s.inodes, { s with
      path := some s.inodes
      content := Function.update s.content s.inodes []
      inodes := s.inodes + 1 })

/-- A text is written at the front of a file. -/
def State.write (s : State) (i : ℕ) (text : Bytes) : State :=
  { s with content := Function.update s.content i (text ++ (s.content i).drop text.length) }

/-- The steps of the commands. -/
inductive Action
  /-- `access(pidFilePath, F_OK)`. -/
  | access (c : Cmd)
  /-- `strdup` and `TouchDir`, and whether they succeed. -/
  | touchDir (c : Cmd) (ok : Bool)
  /-- `fopen`, and whether it succeeds. -/
  | fopen (c : Cmd) (ok : Bool)
  /-- `fprintf` and `fclose`, and the return from `PID_init`. -/
  | fclose (c : Cmd)
  /-- `serverStartedSuccessfully = true`. -/
  | success (c : Cmd)
  /-- `clean` removes the file. -/
  | remove (c : Cmd)
  /-- The command exits and leaves the file alone, or is killed. -/
  | die (c : Cmd)
  deriving DecidableEq

variable (pid : Cmd → ℤ)

/-- A step of a command, where `pid` are the PIDs. -/
def step (s : State) : Action → Option State
  | .access c =>
    match s.stage c, s.path with
    | .start, some _ => some (s.goTo c .exited)
    | .start, none =>
      some { s.goTo c .checked with restarted := s.restarted || !s.removals.isEmpty }
    | _, _ => none
  | .touchDir c ok =>
    match s.stage c with
    | .checked => some (s.goTo c (if ok then .dirReady else .exited))
    | _ => none
  | .fopen c ok =>
    match s.stage c, ok with
    | .dirReady, true => some (s.create.2.goTo c (.opened s.create.1))
    | .dirReady, false => some (s.goTo c .exited)
    | _, _ => none
  | .fclose c =>
    match s.stage c with
    | .opened i =>
      some { (s.write i (decimal (pid c))).goTo c .returned with
        hasReturned := Function.update s.hasReturned c true }
    | _ => none
  | .success c =>
    match s.stage c with
    | .returned => some (s.goTo c .started)
    | _ => none
  | .remove c =>
    match s.stage c, s.path with
    | .started, some i =>
      some { s.goTo c .exited with path := none, removals := s.removals ++ [(c, s.content i)] }
    | .started, none => some (s.goTo c .exited)
    | _, _ => none
  | .die c => some (s.goTo c .exited)

/-- No command tests for the file while the other one is about to open it. -/
def Apart (s : State) : Action → Prop
  | .access c => (s.stage c.other).opening = false
  | _ => True

instance (s : State) (a : Action) : Decidable (Apart s a) := by
  cases a <;> unfold Apart <;> infer_instance

variable {pid} {s s' : State} {c d : Cmd}

theorem Cmd.eq_or_eq_other (c d : Cmd) : d = c ∨ d = c.other := by
  cases c <;> cases d <;> simp [Cmd.other]

@[simp] theorem Cmd.other_ne (c : Cmd) : c.other ≠ c := by
  cases c <;> simp [Cmd.other]

@[simp] theorem Cmd.other_other (c : Cmd) : c.other.other = c := by
  cases c <;> rfl

@[simp] theorem stage_goTo (s : State) (c : Cmd) (stage : Stage) :
    (s.goTo c stage).stage c = stage := Function.update_self _ _ _

@[simp] theorem stage_goTo_other (s : State) (c : Cmd) (stage : Stage) :
    (s.goTo c stage).stage c.other = s.stage c.other := Function.update_of_ne c.other_ne _ _

/-- **The step, inverted.** -/
theorem step_cases {a : Action} (h : step pid s a = some s') :
    (∃ c, a = .access c ∧ s.stage c = .start ∧ s.path = none ∧
      s' = { s.goTo c .checked with restarted := s.restarted || !s.removals.isEmpty }) ∨
    (∃ c, a = .touchDir c true ∧ s.stage c = .checked ∧ s' = s.goTo c .dirReady) ∨
    (∃ c, a = .fopen c true ∧ s.stage c = .dirReady ∧
      s' = s.create.2.goTo c (.opened s.create.1)) ∨
    (∃ c i, a = .fclose c ∧ s.stage c = .opened i ∧
      s' = { (s.write i (decimal (pid c))).goTo c .returned with
        hasReturned := Function.update s.hasReturned c true }) ∨
    (∃ c, a = .success c ∧ s.stage c = .returned ∧ s' = s.goTo c .started) ∨
    (∃ c i, a = .remove c ∧ s.stage c = .started ∧ s.path = some i ∧
      s' = { s.goTo c .exited with path := none, removals := s.removals ++ [(c, s.content i)] }) ∨
    (∃ c, s' = s.goTo c .exited) := by
  fun_cases step pid s a
  all_goals simp only [step, *, Option.some.injEq, reduceCtorEq] at h
  all_goals subst h
  all_goals try simp_all
  all_goals grind

/-! ### The lock -/

variable (pid) in
/-- The invariant: one command is past its test at most, and the file is its file. -/
structure Locked (s : State) : Prop where
  one : ∀ c, (s.stage c).active = true → (s.stage c.other).active = false
  opened : ∀ c i, s.stage c = .opened i → s.path = some i ∧ s.content i = []
  holds : ∀ c, (s.stage c).holds = true → ∃ i, s.path = some i ∧ s.content i = decimal (pid c)
  removals : ∀ r ∈ s.removals, r.2 = decimal (pid r.1)
  returned : ∀ c, s.hasReturned c = true → s.path ≠ none ∨ s.removals ≠ []
  once : s.restarted = false → ∀ c, s.hasReturned c = true →
    (s.stage c.other).active = false ∧ s.hasReturned c.other = false

theorem locked_init : Locked pid init := by
  constructor <;> simp [init, Stage.active, Stage.holds]

/-- The commands apart from the one that takes a step. -/
theorem stage_goTo_cases (s : State) (c : Cmd) (stage : Stage) (d : Cmd) :
    d = c ∧ (s.goTo c stage).stage d = stage ∨
      d = c.other ∧ (s.goTo c stage).stage d = s.stage d := by
  rcases c.eq_or_eq_other d with rfl | rfl
  · exact .inl ⟨rfl, stage_goTo s d stage⟩
  · exact .inr ⟨rfl, stage_goTo_other s c stage⟩

/-- A command that does not enter, and leaves the file alone. -/
theorem Locked.goTo {stage : Stage} (h : Locked pid s)
    (hactive : stage.active = true → (s.stage c).active = true)
    (hopened : ∀ i, stage ≠ .opened i) (hholds : stage.holds = true → (s.stage c).holds = true) :
    Locked pid (s.goTo c stage) where
  one d hd := by
    rcases stage_goTo_cases s c stage d with ⟨rfl, hstage⟩ | ⟨rfl, hstage⟩
    · rw [stage_goTo_other]
      exact h.one d (hactive (hstage ▸ hd))
    · rw [hstage] at hd
      have hc := h.one _ hd
      rw [Cmd.other_other] at hc ⊢
      rw [stage_goTo]
      by_contra hstays
      simp [hactive (by simpa using hstays)] at hc
  opened d i hd := by
    rcases stage_goTo_cases s c stage d with ⟨rfl, hstage⟩ | ⟨rfl, hstage⟩
    · exact absurd (hstage.symm.trans hd) (hopened i)
    · exact h.opened _ i (hstage ▸ hd)
  holds d hd := by
    rcases stage_goTo_cases s c stage d with ⟨rfl, hstage⟩ | ⟨rfl, hstage⟩
    · exact h.holds d (hholds (hstage ▸ hd))
    · exact h.holds _ (hstage ▸ hd)
  removals := h.removals
  returned := h.returned
  once hrestarted d hd := by
    obtain ⟨hother, hnot⟩ := h.once hrestarted d hd
    refine ⟨?_, hnot⟩
    rcases stage_goTo_cases s c stage d.other with ⟨hdc, hstage⟩ | ⟨hdc, hstage⟩
    · rw [hstage]
      by_contra hstays
      have := hactive (by simpa using hstays)
      simp [← hdc, hother] at this
    · rw [hstage]
      exact hother

/-- The invariant when the other command is not active. -/
theorem Locked.of_alone (c : Cmd) (hother : (s.stage c.other).active = false)
    (hopened : ∀ i, s.stage c = .opened i → s.path = some i ∧ s.content i = [])
    (hholds : (s.stage c).holds = true → ∃ i, s.path = some i ∧ s.content i = decimal (pid c))
    (hremovals : ∀ r ∈ s.removals, r.2 = decimal (pid r.1))
    (hreturned : ∀ d, s.hasReturned d = true → s.path ≠ none ∨ s.removals ≠ [])
    (honce : s.restarted = false → s.hasReturned c.other = false) : Locked pid s where
  one d hd := by
    rcases c.eq_or_eq_other d with rfl | rfl
    · exact hother
    · simp [hother] at hd
  opened d i hd := by
    rcases c.eq_or_eq_other d with rfl | rfl
    · exact hopened i hd
    · simp [hd, Stage.active] at hother
  holds d hd := by
    rcases c.eq_or_eq_other d with rfl | rfl
    · exact hholds hd
    · cases hstage : s.stage c.other <;> simp_all [Stage.active, Stage.holds]
  removals := hremovals
  returned := hreturned
  once hrestarted d hd := by
    rcases c.eq_or_eq_other d with rfl | rfl
    · exact ⟨hother, honce hrestarted⟩
    · simp [honce hrestarted] at hd

/-- Only one command passes the test. -/
theorem Locked.access (h : Locked pid s) (hC : Apart s (.access c)) (hpath : s.path = none) :
    Locked pid { s.goTo c .checked with restarted := s.restarted || !s.removals.isEmpty } := by
  have hother : (s.stage c.other).active = false := by
    cases hstage : s.stage c.other with
    | start | exited => rfl
    | checked | dirReady => simp [Apart, hstage, Stage.opening] at hC
    | opened i =>
      have := (h.opened _ i hstage).1
      simp [hpath] at this
    | returned | started =>
      obtain ⟨i, hi, -⟩ := h.holds c.other (by simp [hstage, Stage.holds])
      simp [hpath] at hi
  have hstage := stage_goTo s c .checked
  refine .of_alone c ?_ ?_ ?_ h.removals h.returned ?_
  · exact (congrArg Stage.active (stage_goTo_other s c .checked)).trans hother
  · intro i hi
    cases hstage.symm.trans hi
  · intro hholds
    cases (congrArg Stage.holds hstage).symm.trans hholds
  · -- behind a return there is a file, or a removal
    intro hrestarted
    show s.hasReturned c.other = false
    by_contra hreturned
    rcases h.returned c.other (by simpa using hreturned) with hfile | hremoved
    · exact hfile hpath
    · simp [hremoved] at hrestarted

/-- The other command has not returned, or was followed by a restart. -/
theorem Locked.not_returned (h : Locked pid s) (hactive : (s.stage c).active = true)
    (hrestarted : s.restarted = false) : s.hasReturned c.other = false := by
  by_contra hreturned
  have hinactive := (h.once hrestarted c.other (by simpa using hreturned)).1
  rw [Cmd.other_other, hactive] at hinactive
  cases hinactive

/-- What `fopen` leaves. -/
theorem create_spec (s : State) :
    s.create.2.path = some s.create.1 ∧ s.create.2.content s.create.1 = [] ∧
      s.create.2.stage = s.stage ∧ s.create.2.hasReturned = s.hasReturned ∧
      s.create.2.removals = s.removals ∧ s.create.2.restarted = s.restarted := by
  unfold State.create
  split
  · next hpath => simp [hpath]
  · simp

theorem Locked.fopen (h : Locked pid s) (hactive : (s.stage c).active = true) :
    Locked pid (s.create.2.goTo c (.opened s.create.1)) := by
  obtain ⟨hpath, hcontent, hstage, hreturned, hremovals, hrestarted⟩ := create_spec s
  have hc := stage_goTo s.create.2 c (.opened s.create.1)
  refine .of_alone c ?_ ?_ ?_ ?_ ?_ ?_
  · rw [stage_goTo_other, hstage]
    exact h.one c hactive
  · intro i hi
    cases hc.symm.trans hi
    exact ⟨hpath, hcontent⟩
  · intro hholds
    cases (congrArg Stage.holds hc).symm.trans hholds
  · exact fun r hr => h.removals r (hremovals ▸ hr)
  · exact fun _ _ => .inl (by simp [State.goTo, hpath])
  · intro hr
    show s.create.2.hasReturned c.other = false
    rw [hreturned]
    exact h.not_returned hactive (hrestarted.symm.trans hr)

/-- Nothing but the PID is in the file. -/
theorem Locked.fclose {i : ℕ} (h : Locked pid s) (hopened : s.stage c = .opened i) :
    Locked pid { (s.write i (decimal (pid c))).goTo c .returned with
      hasReturned := Function.update s.hasReturned c true } := by
  obtain ⟨hpath, hcontent⟩ := h.opened c i hopened
  have hactive : (s.stage c).active = true := by rw [hopened]; rfl
  have hc := stage_goTo (s.write i (decimal (pid c))) c .returned
  refine .of_alone c ?_ ?_ ?_ h.removals ?_ ?_
  · have hother := stage_goTo_other (s.write i (decimal (pid c))) c .returned
    exact (congrArg Stage.active hother).trans (h.one c hactive)
  · intro j hj
    cases hc.symm.trans hj
  · intro _
    refine ⟨i, hpath, ?_⟩
    show Function.update s.content i _ i = _
    rw [Function.update_self, hcontent, List.drop_nil, List.append_nil]
  · exact fun _ _ => .inl (by simp [State.goTo, State.write, hpath])
  · intro hrestarted
    show Function.update s.hasReturned c true c.other = false
    rw [Function.update_of_ne c.other_ne]
    exact h.not_returned hactive hrestarted

/-- A command removes its own file. -/
theorem Locked.remove {i : ℕ} (h : Locked pid s) (hstarted : s.stage c = .started)
    (hpath : s.path = some i) :
    Locked pid { s.goTo c .exited with
      path := none, removals := s.removals ++ [(c, s.content i)] } := by
  have hactive : (s.stage c).active = true := by rw [hstarted]; rfl
  have hc := stage_goTo s c .exited
  refine .of_alone c ?_ ?_ ?_ ?_ ?_ ?_
  · exact (congrArg Stage.active (stage_goTo_other s c .exited)).trans (h.one c hactive)
  · intro j hj
    cases hc.symm.trans hj
  · intro hholds
    cases (congrArg Stage.holds hc).symm.trans hholds
  · intro r hr
    rcases List.mem_append.mp hr with hr | hr
    · exact h.removals r hr
    · obtain ⟨j, hj, hcontent⟩ := h.holds c (by rw [hstarted]; rfl)
      cases hpath.symm.trans hj
      rw [List.mem_singleton.mp hr]
      exact hcontent
  · exact fun _ _ => .inr (by simp)
  · exact h.not_returned hactive

theorem Locked.step {a : Action} (h : Locked pid s) (hC : Apart s a)
    (ha : step pid s a = some s') : Locked pid s' := by
  obtain ⟨c, rfl, -, hpath, rfl⟩ | ⟨c, rfl, hstage, rfl⟩ | ⟨c, rfl, hstage, rfl⟩ |
    ⟨c, i, rfl, hstage, rfl⟩ | ⟨c, rfl, hstage, rfl⟩ | ⟨c, i, rfl, hstage, hpath, rfl⟩ |
    ⟨c, rfl⟩ := step_cases ha
  · exact h.access hC hpath
  · exact h.goTo (fun _ => by rw [hstage]; rfl) (by simp) (by simp [Stage.holds])
  · exact h.fopen (by rw [hstage]; rfl)
  · exact h.fclose hstage
  · exact h.goTo (fun _ => by rw [hstage]; rfl) (by simp) (fun _ => by rw [hstage]; rfl)
  · exact h.remove hstage hpath
  · exact h.goTo (by simp [Stage.active]) (by simp) (by simp [Stage.holds])

/-! ### The race -/

/-- The command has come to open the file, or has exited. -/
def Stage.past : Stage → Bool
  | .start | .checked | .dirReady => false
  | _ => true

/-- A file has been opened by a command. -/
theorem past_of_path (hreach : Reachable (step pid) init s) (hpath : s.path ≠ none) :
    ∃ c, (s.stage c).past = true := by
  refine hreach.invariant (P := fun s => s.path ≠ none → ∃ c, (s.stage c).past = true) ?_ ?_ hpath
  · exact fun h => absurd rfl h
  · intro s a s' ih h
    -- a command that is past the test stays there
    have hstays : ∀ {t : State} {c : Cmd} {stage : Stage}, t.stage = s.stage → s.path ≠ none →
        ((s.stage c).past = true → stage.past = true) →
        ∃ d, ((t.goTo c stage).stage d).past = true := by
      intro t c stage ht hpath hpast
      obtain ⟨d, hd⟩ := ih hpath
      refine ⟨d, ?_⟩
      rcases stage_goTo_cases t c stage d with ⟨rfl, hstage⟩ | ⟨rfl, hstage⟩
      · rw [hstage]
        exact hpast hd
      · rw [hstage, ht]
        exact hd
    have hnow : ∀ {t : State} {c : Cmd} {stage : Stage}, stage.past = true →
        ∃ d, ((t.goTo c stage).stage d).past = true := by
      intro t c stage hpast
      exact ⟨c, by rw [stage_goTo]; exact hpast⟩
    obtain ⟨c, rfl, -, hnone, rfl⟩ | ⟨c, rfl, hstage, rfl⟩ | ⟨c, rfl, hstage, rfl⟩ |
      ⟨c, i, rfl, hstage, rfl⟩ | ⟨c, rfl, hstage, rfl⟩ | ⟨c, i, rfl, hstage, -, rfl⟩ |
      ⟨c, rfl⟩ := step_cases h
    · exact fun hpath => absurd hnone hpath
    · exact fun hpath => hstays rfl hpath (by simp [hstage, Stage.past])
    · exact fun _ => hnow rfl
    · exact fun _ => hnow rfl
    · exact fun _ => hnow rfl
    · exact fun hpath => absurd rfl hpath
    · exact fun _ => hnow rfl

variable (pid) in
/-- A command that is about to open the file can go on to the return from `PID_init`. -/
theorem exists_return (hopening : (s.stage c).opening = true) :
    ∃ t, Reachable (step pid) s t ∧ t.stage c = .returned ∧ t.stage c.other = s.stage c.other := by
  obtain ⟨t, ht, hc, hother⟩ : ∃ t, Reachable (step pid) s t ∧ t.stage c = .dirReady ∧
      t.stage c.other = s.stage c.other := by
    cases hstage : s.stage c with
    | checked =>
      refine ⟨s.goTo c .dirReady, Reachable.refl.tail (a := .touchDir c true) ?_, stage_goTo _ _ _,
        stage_goTo_other _ _ _⟩
      simp [step, hstage]
    | dirReady => exact ⟨s, .refl, hstage, rfl⟩
    | _ => simp [hstage, Stage.opening] at hopening
  obtain ⟨-, -, hstage, -⟩ := create_spec t
  have hopen : step pid t (.fopen c true) = some (t.create.2.goTo c (.opened t.create.1)) := by
    simp [step, hc]
  have hclose : step pid (t.create.2.goTo c (.opened t.create.1)) (.fclose c) =
      some { ((t.create.2.goTo c (.opened t.create.1)).write t.create.1 (decimal (pid c))).goTo c
        .returned with
        hasReturned := Function.update (t.create.2.goTo c (.opened t.create.1)).hasReturned c
          true } := by
    simp [step]
  refine ⟨_, (ht.tail hopen).tail hclose, stage_goTo _ _ _, ?_⟩
  refine (stage_goTo_other _ _ _).trans ?_
  refine (stage_goTo_other _ _ _).trans ?_
  rw [hstage, hother]

/-- After a test while the other command is about to open the file, both can return. -/
theorem exists_both (hreach : Reachable (step pid) init s)
    (h : step pid s (.access c) = some s') (hC : ¬ Apart s (.access c)) :
    ∃ t, Reachable (step pid) s' t ∧ t.stage c = .returned ∧ t.stage c.other = .returned := by
  have hopening : (s.stage c.other).opening = true := by simpa [Apart] using hC
  have hstart : s.stage c = .start := by
    simp only [step] at h
    split at h
    · assumption
    · assumption
    · cases h
  have hpath : s.path = none := by
    by_contra hpath
    obtain ⟨d, hd⟩ := past_of_path hreach hpath
    rcases c.eq_or_eq_other d with rfl | rfl
    · simp [hstart, Stage.past] at hd
    · cases hstage : s.stage c.other <;> simp_all [Stage.opening, Stage.past]
  simp only [step, hstart, hpath, Option.some.injEq] at h
  subst h
  have hc := stage_goTo s c .checked
  have hother := stage_goTo_other s c .checked
  -- first this command, then the other one
  obtain ⟨t, ht, hreturned, htother⟩ := exists_return pid
    (s := { s.goTo c .checked with restarted := s.restarted || !s.removals.isEmpty }) (c := c)
    ((congrArg Stage.opening hc).trans rfl)
  obtain ⟨u, hu, huother, hustage⟩ := exists_return pid (s := t) (c := c.other)
    (by rw [htother]; exact (congrArg Stage.opening hother).trans hopening)
  rw [Cmd.other_other] at hustage
  exact ⟨u, ht.trans hu, hustage.trans hreturned, huother⟩

end PidFile

end C2Hat
