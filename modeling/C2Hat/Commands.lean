import C2Hat.Codec

/-!
# Commands as words

`Message_getType` tests a string for the prefix of each command in turn.  A test looks
at no byte behind the prefix, so a longer word that starts with a command is taken for
the command.  A command without its mandatory content is rejected, but only after the
pointer of the caller has been moved behind it, so that `C2HMessage_createFromString`
builds a chat message of what is left: nothing.

## Main definitions

* `C2HMessage.createFromString` — a message from what a user has entered.
* `IsCommand` — a string that is a command as a whole word.
* `WholeWords`, `ConsumesNothing` — commands are whole words, and a failed match leaves
  the string alone.

## Main results

* `getType_of_no_command`, `getType_bare` — the strings without a type.
* `wholeWords_iff` — **commands are recognised as words unless something else than white
  space follows the prefix, or a mandatory content is missing.**
* `consumesNothing_iff` — **a failed match consumes nothing but a command whose
  mandatory content is missing.**
-/

namespace C2Hat

open Clib

/-! ### Messages from strings -/

/-- `C2HMessage_createFromString(buffer, size)`; `none` is a `NULL` result. -/
def C2HMessage.createFromString (buffer : CStr) (size : ℕ) : Except Fault (Option C2HMessage) :=
  if size = 0 then .ok none
  else
    let typed := Message.getType buffer.bytes
    let buffer := CStr.ofBlock typed.2
    if typed.1 = .null then
      -- a regular string, wrapped into a message
      (C2HMessage.create .msg (ascii "%s") [buffer]).map some
    else if typed.1 = .msg ∨ typed.1 = .nick ∨ typed.1 = .quit then
      let copyOfBuffer := CStr.ofBlock (trim (buffer.bytes ++ [0]) defaultSeps)
      (C2HMessage.create typed.1 (ascii "%s") [copyOfBuffer]).map some
    else .ok none

/-- The string is sent as chat text, as it is. -/
def SentAsChat (s : CStr) : Prop :=
  ∀ size, size ≠ 0 →
    C2HMessage.createFromString s size = (C2HMessage.create .msg (ascii "%s") [s]).map some

theorem createFromString_of_null {s : CStr} (h : (Message.getType s.bytes).1 = .null) {size : ℕ}
    (hsize : size ≠ 0) : C2HMessage.createFromString s size =
      (C2HMessage.create .msg (ascii "%s") [CStr.ofBlock (Message.getType s.bytes).2]).map some := by
  rw [C2HMessage.createFromString, if_neg hsize]
  exact if_pos h

/-! ### Strings without a type -/

/-- The tests of `Message_getType` leave a string alone that starts with none of the
commands. -/
theorem getTypeFrom_of_no_command (length : ℕ) {tests : List (C2HMessageType × Bytes × Bool)}
    {message : Bytes} (h : ∀ t ∈ tests, ¬ t.2.1 <+: message) :
    Message.getTypeFrom length tests message = (.null, message) := by
  induction tests with
  | nil => rfl
  | cons t tests ih =>
    obtain ⟨type, command, mandatory⟩ := t
    rw [List.forall_mem_cons] at h
    have hmatch : ¬ (length ≥ command.length ∧ message.take command.length = command) := by
      intro hmatch
      exact h.1 (hmatch.2 ▸ List.take_prefix _ _)
    rw [Message.getTypeFrom, if_neg hmatch]
    exact ih h.2

theorem getType_of_no_command {message : Bytes}
    (h : ∀ T command, C2HMessageType.commandPrefix T = some command → ¬ command <+: message) :
    Message.getType message = (.null, message) := by
  apply getTypeFrom_of_no_command
  intro t ht
  have hprefix : t.1.commandPrefix = some t.2.1 :=
    (by decide : ∀ t ∈ Message.typePrefixes, t.1.commandPrefix = some t.2.1) t ht
  exact h t.1 t.2.1 hprefix

/-- A command without its mandatory content has no type, and the pointer is at its end. -/
theorem getType_bare {T : C2HMessageType} {command : Bytes}
    (hcommand : T.commandPrefix = some command) (hT : ¬ (T = .ok ∨ T = .quit)) :
    Message.getType command = (.null, []) := by
  cases T <;> cases hcommand <;> first | rfl | simp at hT

/-- No command is the beginning of another one. -/
theorem command_unique {T T' : C2HMessageType} {command command' rest rest' : Bytes}
    (hcommand : T.commandPrefix = some command) (hcommand' : T'.commandPrefix = some command')
    (h : command ++ rest = command' ++ rest') : T = T' ∧ rest = rest' := by
  cases T <;> cases hcommand <;> cases T' <;> cases hcommand' <;> simp_all [ascii]

/-- **What `Message_getType` does with a string**: it is split behind a command, it is a
command that lacks its mandatory content, or it starts with no command. -/
theorem getType_trichotomy (s : Bytes) :
    (∃ T command rest, C2HMessageType.commandPrefix T = some command ∧ s = command ++ rest ∧
      Message.getType s = (T, rest)) ∨
    (∃ T, C2HMessageType.commandPrefix T = some s ∧ ¬ (T = .ok ∨ T = .quit) ∧
      Message.getType s = (.null, [])) ∨
    ((∀ T command rest, C2HMessageType.commandPrefix T = some command → s ≠ command ++ rest) ∧
      Message.getType s = (.null, s)) := by
  by_cases hstart : ∃ T command rest, C2HMessageType.commandPrefix T = some command ∧
      s = command ++ rest
  · obtain ⟨T, command, rest, hcommand, rfl⟩ := hstart
    by_cases hrest : rest = [] → T = .ok ∨ T = .quit
    · exact Or.inl ⟨T, command, rest, hcommand, rfl, getType_command hcommand hrest⟩
    · obtain ⟨rfl, hT⟩ := Classical.not_imp.mp hrest
      rw [List.append_nil]
      exact Or.inr (Or.inl ⟨T, hcommand, hT, getType_bare hcommand hT⟩)
  · have hnone : ∀ T command rest, C2HMessageType.commandPrefix T = some command →
        s ≠ command ++ rest := by
      intro T command rest hcommand hs
      exact hstart ⟨T, command, rest, hcommand, hs⟩
    refine Or.inr (Or.inr ⟨hnone, getType_of_no_command ?_⟩)
    rintro T command hcommand ⟨rest, hrest⟩
    exact hnone T command rest hcommand hrest.symm

/-! ### Whole words -/

/-- `s` is the command of type `T` as a word of its own: the prefix, and then the end of
the string or white space and the content.  Only `/ok` and `/quit` may do without a
content. -/
def IsCommand (T : C2HMessageType) (s : Bytes) : Prop :=
  ∃ command, T.commandPrefix = some command ∧
    ((s = command ∧ (T = .ok ∨ T = .quit)) ∨
      ∃ c content, s = command ++ c :: content ∧ c ∈ defaultSeps ∧
        (content = [] → T = .ok ∨ T = .quit))

/-- `Message_getType` reports the commands that are whole words, and everything else is
sent as chat text. -/
structure WholeWords (s : CStr) : Prop where
  /-- The types that are reported. -/
  reported : ∀ T, T ≠ .null → ((Message.getType s.bytes).1 = T ↔ IsCommand T s.bytes)
  /-- Every other string. -/
  chat : (∀ T, ¬ IsCommand T s.bytes) → (Message.getType s.bytes).1 = .null ∧ SentAsChat s

/-- Behind the prefix of type `T` there is something else than the end of the word, or
the mandatory content is missing. -/
def NotAWord (T : C2HMessageType) : Bytes → Prop
  | [] => ¬ (T = .ok ∨ T = .quit)
  | c :: content => c ∉ defaultSeps ∨ (content = [] ∧ ¬ (T = .ok ∨ T = .quit))

theorem isCommand_iff {T : C2HMessageType} {command rest : Bytes}
    (hcommand : T.commandPrefix = some command) :
    IsCommand T (command ++ rest) ↔ ¬ NotAWord T rest := by
  constructor
  · rintro ⟨command', hcommand', hs⟩
    obtain rfl : command = command' := Option.some.inj (hcommand.symm.trans hcommand')
    rcases hs with ⟨hs, hT⟩ | ⟨c, content, hs, hc, hcontent⟩
    · obtain rfl : rest = [] := by simpa using hs
      exact fun h => h hT
    · obtain rfl : rest = c :: content := List.append_cancel_left hs
      rintro (h | ⟨hnil, hT⟩)
      · exact h hc
      · exact hT (hcontent hnil)
  · intro h
    refine ⟨command, hcommand, ?_⟩
    cases rest with
    | nil => exact Or.inl ⟨List.append_nil _, not_not.mp h⟩
    | cons c content =>
      refine Or.inr ⟨c, content, rfl, ?_, fun hnil => ?_⟩
      · exact not_not.mp fun hc => h (Or.inl hc)
      · exact not_not.mp fun hT => h (Or.inr ⟨hnil, hT⟩)

/-- A command starts with its prefix. -/
theorem IsCommand.exists_rest {T : C2HMessageType} {s : Bytes} (h : IsCommand T s) :
    ∃ command rest, T.commandPrefix = some command ∧ s = command ++ rest := by
  obtain ⟨command, hcommand, ⟨hs, -⟩ | ⟨c, content, hs, -⟩⟩ := h
  · exact ⟨command, [], hcommand, by rw [hs, List.append_nil]⟩
  · exact ⟨command, _, hcommand, hs⟩

/-- A chat message made of nothing is not one made of a command. -/
theorem not_sentAsChat_bare {T : C2HMessageType} {s : CStr}
    (hcommand : T.commandPrefix = some s.bytes) (hT : ¬ (T = .ok ∨ T = .quit)) :
    ¬ SentAsChat s := by
  intro h
  have hbare := getType_bare hcommand hT
  have hsent := h 1 Nat.one_ne_zero
  rw [createFromString_of_null (by rw [hbare]) Nat.one_ne_zero, hbare] at hsent
  have hs : s = CStr.ofBlock s.bytes := (CStr.ofBlock_bytes s).symm
  rw [hs] at hsent
  generalize s.bytes = command at hcommand hsent
  cases T <;> cases hcommand
  case ok | quit => simp at hT
  all_goals exact absurd hsent (by decide)

/-- A string that `Message_getType` leaves alone is sent as it is. -/
theorem sentAsChat_of_getType {s : CStr} (h : Message.getType s.bytes = (.null, s.bytes)) :
    SentAsChat s := by
  intro size hsize
  rw [createFromString_of_null (by rw [h]) hsize, h, CStr.ofBlock_bytes]

/-- **Commands are recognised as words, and everything else is sent as it is**, unless
the string starts with the prefix of a command and what follows is not the end of that
word, or lacks the mandatory content. -/
theorem wholeWords_iff (s : CStr) :
    WholeWords s ↔ ∀ T command rest, C2HMessageType.commandPrefix T = some command →
      s.bytes = command ++ rest → ¬ NotAWord T rest := by
  rcases getType_trichotomy s.bytes with
    ⟨T, command, rest, hcommand, hs, htype⟩ | ⟨T, hcommand, hT, htype⟩ | ⟨hnone, htype⟩
  · -- the type is reported: rightly so when the prefix is a word
    have hsplit : ∀ T' command' rest', C2HMessageType.commandPrefix T' = some command' →
        s.bytes = command' ++ rest' → T' = T ∧ rest' = rest := by
      intro T' command' rest' hcommand' hs'
      exact command_unique hcommand' hcommand (hs'.symm.trans hs)
    constructor
    · intro h T' command' rest' hcommand' hs'
      obtain ⟨rfl, rfl⟩ := hsplit T' command' rest' hcommand' hs'
      have hreported := h.reported T' (commandPrefix_facts hcommand).2.2
      rw [htype, hs, isCommand_iff hcommand] at hreported
      exact hreported.mp rfl
    · intro h
      have hcmd : IsCommand T s.bytes := by
        rw [hs]
        exact (isCommand_iff hcommand).mpr (h T command rest hcommand hs)
      refine ⟨fun T' _ => ?_, fun hno => absurd hcmd (hno T)⟩
      rw [htype]
      constructor
      · rintro rfl
        exact hcmd
      · intro hT'
        obtain ⟨command', rest', hcommand', hs'⟩ := hT'.exists_rest
        exact (hsplit T' command' rest' hcommand' hs').1.symm
  · -- the string is the prefix, and is lost
    constructor
    · intro h
      have hno : ∀ T', ¬ IsCommand T' s.bytes := by
        intro T' hT'
        obtain ⟨command', rest', hcommand', -⟩ := hT'.exists_rest
        have hne : T' ≠ .null := (commandPrefix_facts hcommand').2.2
        have hreported := (h.reported T' hne).mpr hT'
        rw [htype] at hreported
        exact hne hreported.symm
      exact absurd (h.chat hno).2 (not_sentAsChat_bare hcommand hT)
    · intro h
      exact absurd hT (h T s.bytes [] hcommand (List.append_nil _).symm)
  · constructor
    · intro _ T command rest hcommand hs
      exact absurd hs (hnone T command rest hcommand)
    · intro _
      refine ⟨fun T hT => ?_, fun _ => ⟨by rw [htype], sentAsChat_of_getType htype⟩⟩
      rw [htype]
      refine ⟨fun hnull => absurd hnull.symm hT, fun hcmd => ?_⟩
      obtain ⟨command, rest, hcommand, hs⟩ := hcmd.exists_rest
      exact absurd hs (hnone T command rest hcommand)

/-- `/quitter` is taken for a `/quit`. -/
theorem not_wholeWords_quitter :
    (Message.getType (str "/quitter").bytes).1 = .quit ∧ ¬ WholeWords (str "/quitter") := by
  refine ⟨by decide, fun h => ?_⟩
  have hcmd : IsCommand .quit (ascii "/quit" ++ ascii "ter") :=
    (h.reported .quit (by decide)).mp (by decide)
  exact (isCommand_iff rfl).mp hcmd (Or.inl (by decide))

/-! ### Failed matches -/

/-- When `Message_getType` finds no type, the pointer of the caller stays at the
beginning of the string, and the whole string becomes the chat message. -/
structure ConsumesNothing (s : CStr) : Prop where
  pointer : (Message.getType s.bytes).1 = .null → (Message.getType s.bytes).2 = s.bytes
  text : (Message.getType s.bytes).1 = .null → SentAsChat s

/-- **A failed match consumes nothing**, unless the string is a command that lacks its
mandatory content. -/
theorem consumesNothing_iff (s : CStr) :
    ConsumesNothing s ↔
      ¬ ∃ T, C2HMessageType.commandPrefix T = some s.bytes ∧ ¬ (T = .ok ∨ T = .quit) := by
  rcases getType_trichotomy s.bytes with
    ⟨T, command, rest, hcommand, hs, htype⟩ | ⟨T, hcommand, hT, htype⟩ | ⟨hnone, htype⟩
  · have htyped : (Message.getType s.bytes).1 ≠ .null := by
      rw [htype]
      exact (commandPrefix_facts hcommand).2.2
    refine ⟨fun _ => ?_, fun _ => ⟨fun h => absurd h htyped, fun h => absurd h htyped⟩⟩
    rintro ⟨T', hcommand', hT'⟩
    rw [getType_bare hcommand' hT'] at htyped
    exact htyped rfl
  · refine ⟨fun h => ?_, fun h => absurd ⟨T, hcommand, hT⟩ h⟩
    exact absurd (h.text (by rw [htype])) (not_sentAsChat_bare hcommand hT)
  · refine ⟨fun _ => ?_, fun _ => ⟨fun _ => by rw [htype], fun _ => sentAsChat_of_getType htype⟩⟩
    rintro ⟨T, hcommand, -⟩
    exact hnone T s.bytes [] hcommand (List.append_nil _).symm

/-- `/msg` becomes a chat message without a text. -/
theorem not_consumesNothing_msg :
    Message.getType (str "/msg").bytes = (.null, []) ∧
      C2HMessage.createFromString (str "/msg") 4 = .ok (some ⟨.msg, CStr.empty, CStr.empty⟩) ∧
      ¬ ConsumesNothing (str "/msg") := by
  refine ⟨by decide, rfl, fun h => ?_⟩
  exact absurd (h.pointer (by decide)) (by decide)

end C2Hat
