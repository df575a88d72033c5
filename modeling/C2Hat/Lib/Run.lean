import Mathlib.Logic.Basic

/-!
# Runs of a step function

A system is a function `step` from a state and an action to the next state, `none`
when the action is not enabled; the actions carry every choice that is not the
system's own.  A run is a list of actions.

Conditions on the steps of a run are expressed by restricting the system: a run of
`restrict step C` is a run of `step` all of whose steps meet `C`.

## Main definitions

* `run`, `Reachable` — runs and the states they end in.
* `restrict` — the system whose steps meet a condition.
* `recording` — the system with a history.

## Main results

* `Reachable.invariant` — what holds initially and is kept by every step holds in
  every reachable state.
* `Reachable.invariant_restrict` — the same for the steps that meet a condition,
  with the reachability of the unrestricted system at hand.
-/

namespace Runs

variable {σ α : Type}

/-- Take the actions of a list one after the other. -/
def run (step : σ → α → Option σ) : σ → List α → Option σ
  | s, [] => some s
  | s, a :: as => (step s a).bind fun s' => run step s' as

/-- `s'` is the end of a run from `s`. -/
def Reachable (step : σ → α → Option σ) (s s' : σ) : Prop := ∃ as, run step s as = some s'

/-- The steps that meet a condition on the state before them and the action. -/
def restrict (step : σ → α → Option σ) (C : σ → α → Prop) [∀ s a, Decidable (C s a)] (s : σ)
    (a : α) : Option σ :=
  if C s a then step s a else none

/-- The system with a history, in which what is observed of each step is written down. -/
def recording {β : Type} (step : σ → α → Option σ) (obs : σ → α → List β) (x : σ × List β)
    (a : α) : Option (σ × List β) :=
  (step x.1 a).map fun s' => (s', x.2 ++ obs x.1 a)

variable {step : σ → α → Option σ} {s s' : σ}

theorem restrict_eq_some {C : σ → α → Prop} [∀ s a, Decidable (C s a)] {a : α} :
    restrict step C s a = some s' ↔ C s a ∧ step s a = some s' := by
  unfold restrict
  split
  · next h => simp [h]
  · next h => simp [h]

theorem Reachable.refl : Reachable step s s := ⟨[], rfl⟩

theorem run_append (as bs : List α) :
    run step s (as ++ bs) = (run step s as).bind fun t => run step t bs := by
  induction as generalizing s with
  | nil => rfl
  | cons a as ih =>
    rw [List.cons_append, run, run, Option.bind_assoc]
    exact congrArg (step s a).bind (funext fun t => ih)

/-- A run that goes on has an end before that. -/
theorem run_append_eq_some {as bs : List α} (h : run step s (as ++ bs) = some s') :
    ∃ t, run step s as = some t ∧ run step t bs = some s' := by
  rw [run_append] at h
  exact Option.bind_eq_some_iff.mp h

theorem Reachable.tail {a : α} {s'' : σ} (h : Reachable step s s') (ha : step s' a = some s'') :
    Reachable step s s'' := by
  obtain ⟨as, hrun⟩ := h
  refine ⟨as ++ [a], ?_⟩
  rw [run_append, hrun, Option.bind_some, run, ha]
  rfl

theorem Reachable.trans {s'' : σ} (h : Reachable step s s') (h' : Reachable step s' s'') :
    Reachable step s s'' := by
  obtain ⟨as, hrun⟩ := h'
  induction as generalizing s' with
  | nil =>
    cases hrun
    exact h
  | cons a as ih =>
    obtain ⟨t, ht, hrest⟩ := Option.bind_eq_some_iff.mp hrun
    exact ih (h.tail ht) hrest

/-- A run that can be computed reaches a state with the properties that were tested. -/
theorem Reachable.of_any (as : List α) {p : σ → Bool} (h : (run step s as).any p = true) :
    ∃ s', Reachable step s s' ∧ p s' = true := by
  obtain ⟨s', hrun, hp⟩ := (Option.any_eq_true p _).mp h
  exact ⟨s', ⟨as, hrun⟩, hp⟩

/-- **The invariant rule.** -/
theorem Reachable.invariant {P : σ → Prop} (hreach : Reachable step s s') (hinit : P s)
    (hstep : ∀ {s a s'}, P s → step s a = some s' → P s') : P s' := by
  obtain ⟨as, hrun⟩ := hreach
  induction as generalizing s with
  | nil =>
    cases hrun
    exact hinit
  | cons a as ih =>
    obtain ⟨t, ht, hrest⟩ := Option.bind_eq_some_iff.mp hrun
    exact ih (hstep hinit ht) hrest

/-- The invariant rule, with the invariants that were proved before at hand. -/
theorem Reachable.invariant_along {P : σ → Prop} (hreach : Reachable step s s') (hinit : P s)
    (hstep : ∀ {s₁ a s₂}, Reachable step s s₁ → P s₁ → step s₁ a = some s₂ → P s₂) : P s' := by
  have hall : Reachable step s s' ∧ P s' := by
    refine hreach.invariant (P := fun t => Reachable step s t ∧ P t) ⟨.refl, hinit⟩ ?_
    rintro s₁ a s₂ ⟨hr, hp⟩ ha
    exact ⟨hr.tail ha, hstep hr hp ha⟩
  exact hall.2

theorem Reachable.of_restrict {C : σ → α → Prop} [∀ s a, Decidable (C s a)]
    (hreach : Reachable (restrict step C) s s') : Reachable step s s' :=
  hreach.invariant (P := fun t => Reachable step s t) .refl fun hr h =>
    hr.tail (restrict_eq_some.mp h).2

/-- A run whose steps meet a condition meets those that follow from it on the way. -/
theorem Reachable.weaken_along {C C' : σ → α → Prop} [∀ s a, Decidable (C s a)]
    [∀ s a, Decidable (C' s a)]
    (hC : ∀ s₁ a, Reachable (restrict step C) s s₁ → C s₁ a → C' s₁ a)
    (hreach : Reachable (restrict step C) s s') : Reachable (restrict step C') s s' := by
  refine hreach.invariant_along (P := fun t => Reachable (restrict step C') s t) .refl ?_
  intro s₁ a s₂ hr hr' h
  obtain ⟨h, ha⟩ := restrict_eq_some.mp h
  exact hr'.tail (restrict_eq_some.mpr ⟨hC _ _ hr h, ha⟩)

/-- So it meets the weaker ones. -/
theorem Reachable.weaken {C C' : σ → α → Prop} [∀ s a, Decidable (C s a)]
    [∀ s a, Decidable (C' s a)] (hC : ∀ s a, C s a → C' s a)
    (hreach : Reachable (restrict step C) s s') : Reachable (restrict step C') s s' :=
  hreach.weaken_along fun s₁ a _ h => hC s₁ a h

/-- The invariant rule for runs whose steps meet a condition. -/
theorem Reachable.invariant_restrict {C : σ → α → Prop} [∀ s a, Decidable (C s a)] {P : σ → Prop}
    (hreach : Reachable (restrict step C) s s') (hinit : P s)
    (hstep : ∀ {s₁ a s₂}, Reachable step s s₁ → P s₁ → C s₁ a → step s₁ a = some s₂ → P s₂) :
    P s' := by
  refine hreach.invariant_along hinit ?_
  intro s₁ a s₂ hr hp h
  obtain ⟨hC, ha⟩ := restrict_eq_some.mp h
  exact hstep hr.of_restrict hp hC ha

theorem recording_eq_some {β : Type} {obs : σ → α → List β} {x y : σ × List β} {a : α} :
    recording step obs x a = some y ↔ step x.1 a = some y.1 ∧ y.2 = x.2 ++ obs x.1 a := by
  rw [recording, Option.map_eq_some_iff]
  constructor
  · rintro ⟨s', hs', rfl⟩
    exact ⟨hs', rfl⟩
  · rintro ⟨hs', hnotes⟩
    exact ⟨y.1, hs', Prod.ext rfl hnotes.symm⟩

/-- The history does not take part. -/
theorem Reachable.of_recording {β : Type} {obs : σ → α → List β} {x y : σ × List β}
    (hreach : Reachable (recording step obs) x y) : Reachable step x.1 y.1 :=
  hreach.invariant (P := fun z => Reachable step x.1 z.1) .refl fun hr h =>
    hr.tail (recording_eq_some.mp h).1

/-- It stays the same under a weaker condition. -/
theorem Reachable.weaken_recording {β : Type} {obs : σ → α → List β} {x y : σ × List β}
    {C C' : σ → α → Prop} [∀ s a, Decidable (C s a)] [∀ s a, Decidable (C' s a)]
    (hC : ∀ s a, C s a → C' s a) (hreach : Reachable (recording (restrict step C) obs) x y) :
    Reachable (recording (restrict step C') obs) x y := by
  refine hreach.invariant (P := fun z => Reachable (recording (restrict step C') obs) x z) .refl ?_
  intro z a z' hr h
  obtain ⟨h, hnotes⟩ := recording_eq_some.mp h
  obtain ⟨h, ha⟩ := restrict_eq_some.mp h
  exact hr.tail (recording_eq_some.mpr ⟨restrict_eq_some.mpr ⟨hC _ _ h, ha⟩, hnotes⟩)

/-- Every run has a history. -/
theorem Reachable.exists_recording {β : Type} (obs : σ → α → List β) (x : List β)
    (hreach : Reachable step s s') : ∃ y, Reachable (recording step obs) (s, x) (s', y) := by
  refine hreach.invariant (P := fun t => ∃ y, Reachable (recording step obs) (s, x) (t, y))
    ⟨x, .refl⟩ fun {s₁ a s₂} hr h => ?_
  obtain ⟨y, hy⟩ := hr
  exact ⟨y ++ obs s₁ a, hy.tail (recording_eq_some.mpr ⟨h, rfl⟩)⟩

end Runs
