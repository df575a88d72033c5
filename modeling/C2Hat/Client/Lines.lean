import C2Hat.Client.WideInput
import C2Hat.Commands

/-!
# Lines

What `App_run` of `src/client/app.c` does with the lines that are entered.  A line is trimmed and
converted to UTF-8, and what is left of it is a command or a chat text.  The array for it has room
for all of it.

## Main definitions

* `App.enter` — the body of the loop, for one line.
* `App.run` — the messages that are sent for some lines.
* `App.text` — a line without the blanks around it, in UTF-8.
* `App.Plain` — a text that is no command, and has no user in brackets.

## Main results

* `enter_eq` — a line is handled by its text.
* `enter_cases` — **only a plain text is sent as it was typed**, and of all others less is.
-/

namespace C2Hat

open Clib

namespace App

/-- What `App_run` does with a line. -/
inductive Entered
  /-- There is nothing to send. -/
  | nothing
  /-- There is no message for the line, which is an error. -/
  | invalid
  /-- The loop is left. -/
  | quit
  | send (message : C2HMessage)
  deriving DecidableEq

/-- What is done with the result of `C2HMessage_createFromString`. -/
def Entered.ofMessage : Option C2HMessage → Entered
  | none => .invalid
  | some message => if message.type = .quit then .quit else .send message

/-- The body of the loop of `App_run`, for the line that is in `buffer`. -/
def enter (line : WStr) : Except Fault Entered :=
  (messageBuffer line).bind fun messageBuffer =>
    let messageBufferLength := strlen messageBuffer
    if messageBufferLength > 0 then
      (C2HMessage.createFromString (CStr.ofBlock messageBuffer) messageBufferLength).map .ofMessage
    else .ok .nothing

/-- The last message of a client. -/
def quit : C2HMessage := ⟨.quit, CStr.empty, CStr.empty⟩

/-- The messages `App_run` sends for the lines that are entered one after the other, until the
user leaves with a command or with `F1`.  All of them can be sent. -/
def run : List WStr → Except Fault (List C2HMessage)
  | [] => .ok [quit]
  | line :: lines =>
    (enter line).bind fun
      | .nothing | .invalid => run lines
      | .quit => .ok [quit]
      | .send message => (run lines).map (message :: ·)

/-- A line without the blanks around it, in UTF-8, up to a character that has no bytes. -/
def text (line : WStr) : CStr where
  bytes := encodeFront (stripped InPlace.defaultWideSeps line.chars)
  nulFree := nul_notMem_encodeFront (nul_notMem_stripped line _)

variable {line : WStr}

theorem length_text_le (line : WStr) : (text line).bytes.length ≤ 4 * line.chars.length :=
  (length_encodeFront_le _).trans (Nat.mul_le_mul_left 4 (length_stripped_le _ _))

/-- The array holds the text. -/
theorem messageBuffer_eq (h : line.chars.length < kMaxMessageLength) :
    ∃ k, messageBuffer line = .ok ((text line).bytes ++ 0 :: List.replicate k 0) := by
  have hlen := length_stripped_le InPlace.defaultWideSeps line.chars
  have hmax : line.chars.length < 281 := h
  obtain ⟨junk, -, hrun⟩ := InPlace.wtrim_run line.nulFree (by omega) none
  obtain ⟨k, hbytes⟩ := wcstombs_of_room (n := kBufferSize)
    (nul_notMem_stripped line InPlace.defaultWideSeps)
    (junk ++ List.replicate (kMaxMessageLength - line.chars.length - 1) 0)
    (by rw [kBufferSize]; omega)
  have hseps : InPlace.wideSeparators none = InPlace.defaultWideSeps := rfl
  refine ⟨k, ?_⟩
  rw [messageBuffer, inputBuffer_eq h, hrun, hseps, List.append_assoc, List.cons_append]
  exact congrArg Except.ok hbytes

/-- **A line is handled by its text.** -/
theorem enter_eq (h : line.chars.length < kMaxMessageLength) :
    enter line = if (text line).bytes = [] then .ok .nothing
      else (C2HMessage.createFromString (text line) (text line).bytes.length).map .ofMessage := by
  obtain ⟨k, hbuffer⟩ := messageBuffer_eq h
  have hstring : CStr.ofBlock ((text line).bytes ++ 0 :: List.replicate k 0) = text line :=
    CStr.ext (CStr.bytes_ofBlock_append (text line).nulFree _)
  rw [enter, hbuffer]
  simp only [Except.bind, strlen, hstring]
  by_cases hempty : (text line).bytes = []
  · rw [if_pos hempty, hempty]
    exact if_neg (lt_irrefl 0)
  · rw [if_neg hempty, if_pos (List.length_pos_of_ne_nil hempty)]

/-! ### The message for a text -/

/-- A text that is no command and has no user in brackets. -/
def Plain (text : Bytes) : Prop :=
  text ≠ [] ∧ Message.getType text = (.null, text) ∧
    Message.getUser text .msg kMaxNicknameSize = none

instance (text : Bytes) : Decidable (Plain text) := inferInstanceAs (Decidable (_ ∧ _ ∧ _))

/-- A message that `C2HMessage_create` has made, of no more than some text. -/
structure Within (text : Bytes) (m : C2HMessage) : Prop where
  content : m.content.bytes.length ≤ text.length
  user : m.user.bytes.length < kMaxNicknameSize
  made : ∃ type buffer, C2HMessage.ofBuffer type buffer = .ok m

/-- A string that fits the buffer is taken apart as it is. -/
theorem create_one {s : CStr} (h : s.bytes.length < kBufferSize) (type : C2HMessageType) :
    C2HMessage.create type (ascii "%s") [s] = C2HMessage.ofBuffer type s := by
  obtain ⟨buffer, hbuffer, hbytes⟩ := vsnprintf_eq_ok kBufferSize (by decide) (expand_one s)
  rw [List.take_of_length_le (Nat.le_sub_one_of_lt h)] at hbytes
  rw [C2HMessage.create, hbuffer, CStr.ext hbytes]
  rfl

/-- What `C2HMessage_create` makes of a string. -/
theorem ofBuffer_cases {type : C2HMessageType} {s : CStr} {m : C2HMessage}
    (h : C2HMessage.ofBuffer type s = .ok m) :
    m.type = type ∧ Within s.bytes m ∧
      ((Message.getUser s.bytes type kMaxNicknameSize = none ∧ m = ⟨type, s, CStr.empty⟩) ∨
        (s.bytes ≠ [] ∧ m.content.bytes.length < s.bytes.length)) := by
  have hmade : ∃ type buffer, C2HMessage.ofBuffer type buffer = .ok m := ⟨type, s, h⟩
  cases huser : Message.getUser s.bytes type kMaxNicknameSize with
  | none =>
    rw [ofBuffer_untagged huser] at h
    cases h
    exact ⟨rfl, ⟨le_rfl, (by decide : 0 < kMaxNicknameSize), hmade⟩, .inl ⟨rfl, rfl⟩⟩
  | some user =>
    have hlt := user_fits_of_ofBuffer h huser
    obtain ⟨-, -, -, before, after, hparts, -⟩ := getUser_eq_some huser
    rw [ofBuffer_of_user huser hlt] at h
    cases h
    have hlen : (CStr.ofBlock (s.bytes.drop (user.length + 3))).bytes.length ≤
        s.bytes.length - (user.length + 3) := by
      rw [← List.length_drop]
      exact (List.takeWhile_prefix _).length_le
    have hne : s.bytes ≠ [] := by
      rw [hparts]
      simp
    have hpos := List.length_pos_of_ne_nil hne
    refine ⟨rfl, ⟨hlen.trans (Nat.sub_le _ _), hlt, hmade⟩, .inr ⟨hne, ?_⟩⟩
    exact hlen.trans_lt (by omega)

/-- A message that is shorter than the text it was made from. -/
def Shorter (text : Bytes) (m : C2HMessage) : Prop :=
  Within text m ∧ m.content.bytes.length < text.length

/-- What is made of a text behind a command. -/
theorem shorter_of_create {T : C2HMessageType} {command rest : Bytes}
    (hcommand : T.commandPrefix = some command) {s : CStr} (hs : s.bytes = command ++ rest)
    (hfit : s.bytes.length < kBufferSize) {m : C2HMessage}
    (h : C2HMessage.create T (ascii "%s") [CStr.ofBlock (trim (rest ++ [0]) defaultSeps)] =
      .ok m) : m.type = T ∧ Shorter s.bytes m := by
  have hnul := s.nulFree
  rw [hs, List.mem_append, not_or] at hnul
  have hcopy := bytes_trim defaultSeps hnul.2 []
  have hstrip := length_strip_le defaultSeps rest
  have hlen : s.bytes.length = command.length + rest.length := by rw [hs, List.length_append]
  have hpos : 0 < command.length := by
    cases T <;> cases hcommand <;> decide
  rw [create_one (by rw [hcopy]; omega)] at h
  obtain ⟨htype, ⟨hcontent, huser, hmade⟩, -⟩ := ofBuffer_cases h
  rw [hcopy] at hcontent
  exact ⟨htype, ⟨by omega, huser, hmade⟩, by omega⟩

/-- **What becomes of a text**: a plain one is sent as it is, and of all others less is. -/
theorem createFromString_cases {s : CStr} (hne : s.bytes ≠ []) (hfit : s.bytes.length < kBufferSize)
    {m : C2HMessage}
    (h : C2HMessage.createFromString s s.bytes.length = .ok (some m)) :
    (m.type = .msg ∨ m.type = .nick ∨ m.type = .quit) ∧
      ((Plain s.bytes ∧ m = ⟨.msg, s, CStr.empty⟩) ∨ Shorter s.bytes m) := by
  have hsize : s.bytes.length ≠ 0 := (List.length_pos_of_ne_nil hne).ne'
  rcases getType_trichotomy s.bytes with
    ⟨T, command, rest, hcommand, hs, htype⟩ | ⟨T, hcommand, hT, htype⟩ | ⟨hnone, htype⟩
  · -- a command with its content
    have hrest : (0 : UInt8) ∉ rest := by
      have hnul := s.nulFree
      rw [hs, List.mem_append, not_or] at hnul
      exact hnul.2
    have hnull : ¬ T = .null := (commandPrefix_facts hcommand).2.2
    simp only [C2HMessage.createFromString, if_neg hsize, htype, if_neg hnull,
      CStr.bytes_ofBlock_of_nulFree hrest] at h
    by_cases hallowed : T = .msg ∨ T = .nick ∨ T = .quit
    · rw [if_pos hallowed] at h
      obtain ⟨m', hcreate, hm⟩ := map_eq_ok.mp h
      cases hm
      obtain ⟨hmtype, hshorter⟩ := shorter_of_create hcommand hs hfit hcreate
      exact ⟨hmtype ▸ hallowed, .inr hshorter⟩
    · rw [if_neg hallowed] at h
      cases h
  · -- a command without it: nothing is left
    rw [createFromString_of_null (by rw [htype]) hsize, htype,
      create_one (s := CStr.ofBlock []) (by decide)] at h
    obtain ⟨m', hbuffer, hm⟩ := map_eq_ok.mp h
    cases hm
    obtain ⟨hmtype, ⟨hcontent, huser, hmade⟩, -⟩ := ofBuffer_cases hbuffer
    have hempty : m.content.bytes.length = 0 := Nat.eq_zero_of_le_zero hcontent
    exact ⟨.inl hmtype, .inr ⟨⟨by omega, huser, hmade⟩, by omega⟩⟩
  · rw [createFromString_of_null (by rw [htype]) hsize, htype, CStr.ofBlock_bytes,
      create_one hfit] at h
    obtain ⟨m', hbuffer, hm⟩ := map_eq_ok.mp h
    cases hm
    obtain ⟨hmtype, hwithin, ⟨huser, rfl⟩ | ⟨-, hlt⟩⟩ := ofBuffer_cases hbuffer
    · exact ⟨.inl hmtype, .inl ⟨⟨hne, htype, huser⟩, rfl⟩⟩
    · exact ⟨.inl hmtype, .inr ⟨hwithin, hlt⟩⟩

theorem length_text_lt (h : line.chars.length < kMaxMessageLength) :
    (text line).bytes.length < kBufferSize - 400 := by
  have hlen := length_text_le line
  rw [kMaxMessageLength] at h
  rw [kBufferSize]
  omega

/-- **What is sent for a line.** -/
theorem enter_cases (h : line.chars.length < kMaxMessageLength) {m : C2HMessage}
    (hsend : enter line = .ok (.send m)) :
    (m.type = .msg ∨ m.type = .nick) ∧
      ((Plain (text line).bytes ∧ m = ⟨.msg, text line, CStr.empty⟩) ∨
        Shorter (text line).bytes m) := by
  have hfit : (text line).bytes.length < kBufferSize :=
    (length_text_lt h).trans_le (Nat.sub_le _ _)
  rw [enter_eq h] at hsend
  by_cases hempty : (text line).bytes = []
  · rw [if_pos hempty] at hsend
    cases hsend
  rw [if_neg hempty] at hsend
  obtain ⟨o, hcreate, hm⟩ := map_eq_ok.mp hsend
  cases o with
  | none => cases hm
  | some m' =>
    rw [Entered.ofMessage] at hm
    split_ifs at hm with hquit
    cases hm
    obtain ⟨htype, hcases⟩ := createFromString_cases hempty hfit hcreate
    refine ⟨?_, hcases⟩
    rcases htype with htype | htype | htype
    · exact .inl htype
    · exact .inr htype
    · exact absurd htype hquit

/-- A plain text is sent as it was typed. -/
theorem enter_plain (h : line.chars.length < kMaxMessageLength)
    (hplain : Plain (text line).bytes) :
    enter line = .ok (.send ⟨.msg, text line, CStr.empty⟩) := by
  have hfit : (text line).bytes.length < kBufferSize :=
    (length_text_lt h).trans_le (Nat.sub_le _ _)
  obtain ⟨hne, htype, huser⟩ := hplain
  have hsize : (text line).bytes.length ≠ 0 := (List.length_pos_of_ne_nil hne).ne'
  rw [enter_eq h, if_neg hne, createFromString_of_null (by rw [htype]) hsize, htype,
    CStr.ofBlock_bytes, create_one hfit, ofBuffer_untagged huser]
  rfl

/-! ### Blanks -/

/-- A byte that is a blank comes from a character that is one. -/
theorem separator_of_mem {c : WChar} {bytes : Bytes} (hc : utf8Encode c = some bytes) {x : UInt8}
    (hx : x ∈ bytes) (hsep : x ∈ defaultSeps) : c ∈ InPlace.defaultWideSeps := by
  have hsmall : ∀ x : UInt8, x ∈ defaultSeps → x.toNat < 128 ∧
      UInt32.ofNat x.toNat ∈ InPlace.defaultWideSeps := by
    intro x hx
    simp only [defaultSeps, List.mem_cons, List.not_mem_nil, or_false] at hx
    rcases hx with rfl | rfl | rfl | rfl | rfl | rfl
    all_goals exact ⟨by decide, by decide⟩
  obtain ⟨hascii, hmem⟩ := hsmall x hsep
  have hnat := toNat_of_mem_utf8Encode hc hx hascii
  rw [← hnat, UInt32.ofNat_toNat] at hmem
  exact hmem

/-- Neither end of a text that was trimmed is a blank. -/
theorem ends_of_stripped {chars s : List WChar} {c : WChar} :
    (stripped InPlace.defaultWideSeps chars = c :: s → c ∉ InPlace.defaultWideSeps) ∧
      (stripped InPlace.defaultWideSeps chars = s ++ [c] → c ∉ InPlace.defaultWideSeps) := by
  constructor
  · intro hs
    have hhead := List.head?_dropWhile_not (fun x => decide (x ∈ InPlace.defaultWideSeps))
      (chars.rdropWhile (· ∈ InPlace.defaultWideSeps))
    rw [show List.dropWhile _ _ = c :: s from hs] at hhead
    exact of_decide_eq_false hhead
  · intro hs
    obtain ⟨lead, hlead⟩ : stripped InPlace.defaultWideSeps chars <:+ chars.rdropWhile
        (· ∈ InPlace.defaultWideSeps) := List.dropWhile_suffix _
    rw [hs, ← List.append_assoc] at hlead
    have hlast := List.rdropWhile_last_not (fun x => decide (x ∈ InPlace.defaultWideSeps)) chars
      (by rw [← hlead]; exact List.append_ne_nil_of_right_ne_nil _ (List.cons_ne_nil _ _))
    simp only [← hlead, List.getLast_append_singleton, decide_eq_true_eq] at hlast
    exact hlast

/-- **There are no blanks around a text** whose characters all have bytes. -/
theorem strip_text {bytes : Bytes}
    (h : encodeAll (stripped InPlace.defaultWideSeps line.chars) = some bytes) :
    strip defaultSeps (text line).bytes = (text line).bytes := by
  have htext : (text line).bytes = bytes := encodeFront_eq h
  have hright : bytes.rdropWhile (· ∈ defaultSeps) = bytes := by
    rcases List.eq_nil_or_concat' (stripped InPlace.defaultWideSeps line.chars) with
      hnil | ⟨s, c, hs⟩
    · rw [hnil] at h
      cases h
      rfl
    · rw [hs] at h
      obtain ⟨front, back, -, hback, rfl⟩ := encodeAll_append h
      obtain ⟨last, hc, hrest⟩ := Option.bind_eq_some_iff.mp hback
      have hlast : back = last := (Option.some.inj hrest).symm.trans (List.append_nil _)
      rw [hlast]
      obtain ⟨y, x, rfl⟩ := (List.eq_nil_or_concat' last).resolve_left
        (List.ne_nil_of_length_pos (length_utf8Encode hc).1)
      rw [← List.append_assoc]
      refine List.rdropWhile_concat_neg _ _ _ fun hx => ?_
      exact ends_of_stripped.2 hs (separator_of_mem hc (by simp) (of_decide_eq_true hx))
  have hleft : bytes.dropWhile (· ∈ defaultSeps) = bytes := by
    cases hs : stripped InPlace.defaultWideSeps line.chars with
    | nil =>
      rw [hs] at h
      cases h
      rfl
    | cons c s =>
      rw [hs] at h
      obtain ⟨first, hc, hrest⟩ := Option.bind_eq_some_iff.mp h
      obtain ⟨others, -, rfl⟩ := Option.map_eq_some_iff.mp hrest
      cases first with
      | nil => exact absurd (length_utf8Encode hc).1 (lt_irrefl 0)
      | cons x y =>
        refine List.dropWhile_cons_of_neg fun hx => ?_
        exact ends_of_stripped.1 hs (separator_of_mem hc (by simp) (of_decide_eq_true hx))
  rw [htext, strip, hright, hleft]

end App

end C2Hat
