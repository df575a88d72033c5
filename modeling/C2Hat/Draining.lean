import C2Hat.Codec
import C2Hat.Frames
import C2Hat.Receive

/-!
# The loops over a buffer

The callers of `C2HMessage_get` take messages out of the buffer until it returns `NULL`,
or until the body of their loop ends it.  `getLoop` is such a loop; what the body decides
is a parameter.  `takeFrames` does the same with the frames of the buffer, and
`getLoop_spec` says that the two agree, so that the loops can be reasoned about as
recursions on a list.

`C2HMessage_get` also returns `NULL` for a frame with an unknown command.  Frames behind
it stay in the buffer, and are lost with the next read.

## Main definitions

* `Recognised` — the frames with a known command.
* `getLoop`, `takeFrames` — the loop on a buffer, and on its frames.

## Main results

* `nullMeansExhausted_iff` — **a `NULL` means that no recognised frame is left exactly
  when the next frame does not hide one.**
* `getLoop_spec` — **the loop on a buffer is the loop on its frames.**
-/

namespace C2Hat

open Clib

/-! ### Frames with a known command -/

/-- `Message_getType` finds a type for the frame. -/
def Recognised (frame : CStr) : Prop := (Message.getType frame.bytes).1 ≠ .null

instance : DecidablePred Recognised := fun _ => inferInstanceAs (Decidable (_ ≠ _))

theorem parse_of_not_recognised {frame : CStr} (h : ¬ Recognised frame) :
    C2HMessage.parse frame = .ok none := by
  rw [Recognised, not_not] at h
  simp only [C2HMessage.parse, C2HMessage.decode, h, if_true]

/-- A recognised frame becomes a message of its type, unless there is a fault. -/
theorem parse_recognised {frame : CStr} (h : Recognised frame) :
    (∃ e, C2HMessage.parse frame = .error e) ∨
    ∃ m, C2HMessage.parse frame = .ok (some m) ∧ m.type = (Message.getType frame.bytes).1 := by
  obtain ⟨type, command, rest, hsplits⟩ := exists_splits h
  obtain ⟨tail, htrim, -⟩ := trim_block defaultSeps hsplits.nulFree.2 []
  rw [parse_eq hsplits htrim (nulFree_strip hsplits.nulFree.2 defaultSeps), hsplits.typed]
  split
  · exact Or.inr ⟨_, rfl, rfl⟩
  · cases Message.writeUser (Message.getUser (strip defaultSeps rest) type kMaxNicknameSize) with
    | error e => exact Or.inl ⟨e, rfl⟩
    | ok user =>
      simp only [Except.bind]
      split
      · exact Or.inl ⟨_, rfl⟩
      · split
        · exact Or.inl ⟨_, rfl⟩
        · exact Or.inr ⟨_, rfl, rfl⟩

theorem not_recognised_of_parse {frame : CStr} (h : C2HMessage.parse frame = .ok none) :
    ¬ Recognised frame := by
  intro hrec
  rcases parse_recognised hrec with ⟨e, he⟩ | ⟨m, hm, -⟩
  · rw [h] at he
    cases he
  · rw [h] at hm
    cases hm

theorem type_of_parse {frame : CStr} {m : C2HMessage} (h : C2HMessage.parse frame = .ok (some m)) :
    m.type = (Message.getType frame.bytes).1 := by
  have hrec : Recognised frame := by
    by_contra hrec
    rw [parse_of_not_recognised hrec] at h
    cases h
  rcases parse_recognised hrec with ⟨e, he⟩ | ⟨m', hm', htype⟩
  · rw [h] at he
    cases he
  · rw [h] at hm'
    cases hm'
    exact htype

/-- The three things that happen to a frame. -/
theorem parse_cases (frame : CStr) :
    (¬ Recognised frame ∧ C2HMessage.parse frame = .ok none) ∨
    (Recognised frame ∧ Decodable frame.bytes ∧ ∃ m, C2HMessage.parse frame = .ok (some m)) ∨
    (Recognised frame ∧ ¬ Decodable frame.bytes ∧ ∃ e, C2HMessage.parse frame = .error e) := by
  by_cases hrec : Recognised frame
  · obtain ⟨type, command, rest, hsplits⟩ := exists_splits hrec
    by_cases hdecodable : Decodable frame.bytes
    · exact Or.inr (Or.inl ⟨hrec, hdecodable, (exists_parse_iff hsplits).mpr hdecodable⟩)
    · refine Or.inr (Or.inr ⟨hrec, hdecodable, ?_⟩)
      cases hparse : C2HMessage.parse frame with
      | error e => exact ⟨e, rfl⟩
      | ok o =>
        cases o with
        | none => exact absurd hrec (not_recognised_of_parse hparse)
        | some m => exact absurd ((exists_parse_iff hsplits).mp ⟨m, hparse⟩) hdecodable
  · exact Or.inl ⟨hrec, parse_of_not_recognised hrec⟩

theorem decodable_of_parse {frame : CStr} {m : C2HMessage}
    (h : C2HMessage.parse frame = .ok (some m)) : Recognised frame ∧ Decodable frame.bytes := by
  rcases parse_cases frame with ⟨-, hparse⟩ | ⟨hrec, hdecodable, -⟩ | ⟨-, -, e, hparse⟩
  · rw [h] at hparse
    cases hparse
  · exact ⟨hrec, hdecodable⟩
  · rw [h] at hparse
    cases hparse

/-! ### One call -/

theorem getFrame_of_get {b b' : MessageBuffer} {frame : CStr}
    (h : Message.get b = .ok (some frame, b')) :
    C2HMessage.getFrame b =
      (C2HMessage.parse frame).map fun message => (message.map (frame, ·), b') := by
  rw [C2HMessage.getFrame, h]
  rfl

/-- A call that returns `NULL` leaves no recognised frame behind. -/
def NullMeansExhausted (b : MessageBuffer) : Prop :=
  ∀ b', C2HMessage.get b = .ok (none, b') → ∀ frame ∈ framesOf b.view, ¬ Recognised frame

/-- The next frame is not recognised, but one behind it is. -/
def HidesFrame (b : MessageBuffer) : Prop :=
  ∃ frame rest, framesOf b.view = frame :: rest ∧ ¬ Recognised frame ∧
    ∃ hidden ∈ rest, Recognised hidden

theorem nullMeansExhausted_iff (b : MessageBuffer) :
    NullMeansExhausted b ↔ ¬ HidesFrame b := by
  constructor
  · rintro hnull ⟨frame, rest, hframes, hrec, hidden, hmem, hhidden⟩
    obtain ⟨b', hget⟩ := (exists_get_iff b frame).mpr (by rw [hframes]; rfl)
    have hnone : C2HMessage.get b = .ok (none, b') := by
      rw [C2HMessage.get, getFrame_of_get hget, parse_of_not_recognised hrec]
      rfl
    refine hnull b' hnone hidden ?_ hhidden
    rw [hframes]
    exact List.mem_cons_of_mem _ hmem
  · intro hhides b' hnone frame hmem
    cases hframes : framesOf b.view with
    | nil =>
      rw [hframes] at hmem
      cases hmem
    | cons first rest =>
      -- the call was about the first frame
      obtain ⟨b'', hget⟩ := (exists_get_iff b first).mpr (by rw [hframes]; rfl)
      rw [C2HMessage.get, getFrame_of_get hget] at hnone
      obtain ⟨⟨r, c⟩, hr, heq⟩ := map_eq_ok.mp hnone
      obtain ⟨o, ho, heq'⟩ := map_eq_ok.mp hr
      have hfirst : ¬ Recognised first := by
        cases o with
        | none => exact not_recognised_of_parse ho
        | some m =>
          cases heq'
          cases heq
      rw [hframes] at hmem
      rcases List.mem_cons.mp hmem with rfl | hrest
      · exact hfirst
      · intro hrec
        exact hhides ⟨first, rest, hframes, hfirst, frame, hrest, hrec⟩

/-! ### The loop -/

/-- What a loop over a buffer comes to. -/
structure Drained (β : Type) where
  /-- The messages that were taken out, with their frames. -/
  taken : List (CStr × C2HMessage)
  /-- Whether the loop ended with a `NULL`. -/
  null : Bool
  /-- What is left. -/
  rest : β

/-- The result of a loop when one more message was taken out in front. -/
def Drained.cons {β : Type} (r : CStr × C2HMessage) (d : Drained β) : Drained β :=
  { d with taken := r :: d.taken }

/-- Call `C2HMessage_get` until it returns `NULL`, or until the body of the loop ends it:
`leaves n m` says whether it does so in round `n`, when the message is `m`.  `none` when
the rounds were not enough. -/
def getLoop (leaves : ℕ → C2HMessage → Bool) :
    ℕ → MessageBuffer → Except Fault (Option (Drained MessageBuffer))
  | 0, _ => .ok none
  | rounds + 1, b =>
    (C2HMessage.getFrame b).bind fun
      | (none, b') => .ok (some ⟨[], true, b'⟩)
      | (some r, b') =>
        if leaves 0 r.2 then .ok (some ⟨[r], false, b'⟩)
        else (getLoop (fun n => leaves (n + 1)) rounds b').map (Option.map (Drained.cons r))

/-- The same with a list of frames. -/
def takeFrames : (ℕ → C2HMessage → Bool) → List CStr → Except Fault (Drained (List CStr))
  | _, [] => .ok ⟨[], true, []⟩
  | leaves, frame :: rest =>
    (C2HMessage.parse frame).bind fun
      | none => .ok ⟨[], true, rest⟩
      | some m =>
        if leaves 0 m then .ok ⟨[(frame, m)], false, rest⟩
        else (takeFrames (fun n => leaves (n + 1)) rest).map (Drained.cons (frame, m))

/-- The frames that are left in a buffer. -/
def Drained.frames (d : Drained MessageBuffer) : Drained (List CStr) :=
  { d with rest := framesOf d.rest.view }

/-- **The loop on a buffer is the loop on its frames**, when it has rounds enough. -/
theorem getLoop_spec {rounds : ℕ} : ∀ {leaves : ℕ → C2HMessage → Bool} {b : MessageBuffer},
    Terminated b.view → (framesOf b.view).length < rounds →
      ∃ r, getLoop leaves rounds b = Except.map some r ∧
        takeFrames leaves (framesOf b.view) = Except.map Drained.frames r := by
  induction rounds with
  | zero =>
    intro leaves b _ hlt
    omega
  | succ rounds ih =>
    intro leaves b h hlt
    rcases get_of_terminated h with ⟨hnil, hget⟩ | ⟨frame, b', hframes, h', hget⟩
    · refine ⟨.ok ⟨[], true, .zeroed⟩, ?_, ?_⟩
      · rw [getLoop, C2HMessage.getFrame, hget]
        rfl
      · rw [hnil]
        show _ = Except.ok (Drained.mk [] true (framesOf MessageBuffer.zeroed.view))
        rw [framesOf_zeroed]
        rfl
    · rw [hframes, List.length_cons] at hlt
      rw [getLoop, getFrame_of_get hget, hframes, takeFrames]
      cases C2HMessage.parse frame with
      | error e => exact ⟨.error e, rfl, rfl⟩
      | ok o =>
        cases o with
        | none => exact ⟨.ok ⟨[], true, b'⟩, rfl, rfl⟩
        | some m =>
          simp only [Except.map, Except.bind, Option.map]
          by_cases hleaves : leaves 0 m = true
          · rw [if_pos hleaves, if_pos hleaves]
            exact ⟨.ok ⟨[(frame, m)], false, b'⟩, rfl, rfl⟩
          · rw [if_neg hleaves, if_neg hleaves]
            obtain ⟨r, hloop, htake⟩ := @ih (fun n => leaves (n + 1)) b' h' (by omega)
            rw [hloop, htake]
            cases r with
            | error e => exact ⟨.error e, rfl, rfl⟩
            | ok d => exact ⟨.ok (d.cons (frame, m)), rfl, rfl⟩

theorem length_framesOf_lt (b : MessageBuffer) : (framesOf b.view).length < drainFuel := by
  have hle := length_framesOf_le b.view
  rw [b.length_view] at hle
  rw [drainFuel]
  omega

/-- The decision of a body that never ends the loop. -/
def never : ℕ → C2HMessage → Bool := fun _ _ => false

/-- The loop of `App_listen` is `drain`. -/
theorem drain_of_getLoop {rounds : ℕ} : ∀ {b : MessageBuffer} {d : Drained MessageBuffer},
    getLoop never rounds b = .ok (some d) → drain rounds b = .ok (d.taken, d.rest) := by
  induction rounds with
  | zero =>
    intro b d h
    cases h
  | succ rounds ih =>
    intro b d h
    rw [getLoop] at h
    obtain ⟨⟨r, b'⟩, hget, h⟩ := bind_eq_ok.mp h
    rw [drain, hget]
    cases r with
    | none =>
      cases h
      rfl
    | some r =>
      obtain ⟨o, ho, heq⟩ := map_eq_ok.mp h
      obtain ⟨d', rfl, rfl⟩ := Option.map_eq_some_iff.mp heq
      show (drain rounds b').map _ = _
      rw [ih ho]
      rfl

/-! ### What is left behind -/

/-- A loop that a `NULL` ended has taken the frames up to the first that is not
recognised. -/
theorem takeFrames_null : ∀ {leaves : ℕ → C2HMessage → Bool} {frames : List CStr}
    {d : Drained (List CStr)}, takeFrames leaves frames = .ok d → d.null = true →
      d.rest = [] ∨ ∃ before unknown, frames = before ++ unknown :: d.rest ∧
        (∀ frame ∈ before, Recognised frame ∧ Decodable frame.bytes) ∧ ¬ Recognised unknown := by
  intro leaves frames
  induction frames generalizing leaves with
  | nil =>
    intro d h _
    cases h
    exact Or.inl rfl
  | cons frame frames ih =>
    intro d h hnull
    rw [takeFrames] at h
    rcases parse_cases frame with ⟨hrec, hparse⟩ | ⟨hrec, hdecodable, m, hparse⟩ |
      ⟨-, -, e, hparse⟩
    · rw [hparse] at h
      cases h
      exact Or.inr ⟨[], frame, rfl, by simp, hrec⟩
    · rw [hparse] at h
      simp only [Except.bind] at h
      split at h
      · cases h
        cases hnull
      · obtain ⟨d', hd', rfl⟩ := map_eq_ok.mp h
        rcases ih hd' hnull with hnil | ⟨before, unknown, rfl, hbefore, hunknown⟩
        · exact Or.inl hnil
        · refine Or.inr ⟨frame :: before, unknown, rfl, ?_, hunknown⟩
          rintro f (_ | ⟨_, hf⟩)
          · exact ⟨hrec, hdecodable⟩
          · exact hbefore f hf
    · rw [hparse] at h
      cases h

/-- A loop that only a `NULL` ends leaves all that is behind the first frame that is not
recognised. -/
theorem takeFrames_never {before rest : List CStr} {unknown : CStr}
    (hbefore : ∀ frame ∈ before, Recognised frame ∧ Decodable frame.bytes)
    (hunknown : ¬ Recognised unknown) :
    ∃ taken, takeFrames never (before ++ unknown :: rest) = .ok ⟨taken, true, rest⟩ := by
  induction before with
  | nil =>
    refine ⟨[], ?_⟩
    rw [List.nil_append, takeFrames, parse_of_not_recognised hunknown]
    rfl
  | cons frame before ih =>
    obtain ⟨taken, htaken⟩ := ih fun f hf => hbefore f (List.mem_cons_of_mem _ hf)
    obtain ⟨hrec, hdecodable⟩ := hbefore frame (List.mem_cons_self ..)
    obtain ⟨type, command, text, hsplits⟩ := exists_splits hrec
    obtain ⟨m, hparse⟩ := (exists_parse_iff hsplits).mpr hdecodable
    refine ⟨(frame, m) :: taken, ?_⟩
    rw [List.cons_append, takeFrames, hparse]
    show (takeFrames never _).map _ = _
    rw [htaken]
    rfl

/-- When a `NULL` ends the loop, no recognised frame is left. -/
def LeavesNothing (leaves : ℕ → C2HMessage → Bool) (b : MessageBuffer) : Prop :=
  ∀ d, getLoop leaves drainFuel b = .ok (some d) → d.null = true →
    ∀ frame ∈ framesOf d.rest.view, ¬ Recognised frame

/-- Behind frames that are decoded there is one that is not recognised, and behind that
one that is. -/
def HidesLater (b : MessageBuffer) : Prop :=
  ∃ before unknown rest, framesOf b.view = before ++ unknown :: rest ∧
    (∀ frame ∈ before, Recognised frame ∧ Decodable frame.bytes) ∧ ¬ Recognised unknown ∧
    ∃ hidden ∈ rest, Recognised hidden

/-- Whatever else may end it, no loop leaves a frame behind, when there is none that is
hidden. -/
theorem leavesNothing {b : MessageBuffer} (h : Terminated b.view) (hhides : ¬ HidesLater b)
    (leaves : ℕ → C2HMessage → Bool) : LeavesNothing leaves b := by
  intro d hd hnull frame hframe hrec
  obtain ⟨r, hloop, htake⟩ := @getLoop_spec drainFuel leaves b h (length_framesOf_lt b)
  rw [hd] at hloop
  obtain ⟨d', rfl, heq⟩ := map_eq_ok.mp hloop.symm
  obtain rfl := Option.some.inj heq
  rcases takeFrames_null htake hnull with hnil | ⟨before, unknown, hsplit, hbefore, hunknown⟩
  · change framesOf d'.rest.view = [] at hnil
    rw [hnil] at hframe
    cases hframe
  · exact hhides ⟨before, unknown, _, hsplit, hbefore, hunknown, frame, hframe, hrec⟩

theorem not_leavesNothing {b : MessageBuffer} (h : Terminated b.view) (hhides : HidesLater b) :
    ¬ LeavesNothing never b := by
  obtain ⟨before, unknown, rest, hsplit, hbefore, hunknown, hidden, hmem, hrec⟩ := hhides
  intro hleaves
  obtain ⟨taken, htaken⟩ := @takeFrames_never before rest unknown hbefore hunknown
  obtain ⟨r, hloop, htake⟩ := @getLoop_spec drainFuel never b h (length_framesOf_lt b)
  rw [hsplit, htaken] at htake
  obtain ⟨d, rfl, heq⟩ := map_eq_ok.mp htake.symm
  have hrest : framesOf d.rest.view = rest := congrArg Drained.rest heq
  have hnull : d.null = true := congrArg Drained.null heq
  refine hleaves d hloop hnull hidden ?_ hrec
  rw [hrest]
  exact hmem

end C2Hat
