import C2Hat.MessageBuffer

/-!
# Writing a message and reading it back

The encoder (`C2HMessage_create` and `C2HMessage_format`) and the decoder
(`C2HMessage_get`) meet in the text of a frame: the command, a space, and the body
with its optional user tag.  The two halves are specified separately, the encoder
by `fullText` and the decoder by `strip` and the first pair of brackets, and then
put together.

## Main results

* `format_truncates_once` — formatting truncates the full text, once.
* `parse_untagged`, `parse_tagged` — what a frame decodes to.
* `get_format_create` — **the decoder undoes the encoder.**
-/

namespace C2Hat

open Clib

/-! ### The user tag -/

/-- A tag is found at the first opening bracket. -/
theorem getUser_tag {type : C2HMessageType} (htype : type = .msg ∨ type = .log)
    {before user after : Bytes} {length : ℕ} (hbefore : kUserNameStartTag ∉ before)
    (huser : kUserNameEndTag ∉ user) (hpos : 0 < user.length) (hle : user.length ≤ length) :
    Message.getUser (before ++ kUserNameStartTag :: (user ++ kUserNameEndTag :: after)) type length
      = some user := by
  have hopen : strchr (before ++ kUserNameStartTag :: (user ++ kUserNameEndTag :: after))
      kUserNameStartTag = some before.length := by
    rw [strchr, if_neg (by decide)]
    exact memchr_append hbefore
  have hstart : (before ++ kUserNameStartTag :: (user ++ kUserNameEndTag :: after)).drop
      (before.length + 1) = user ++ kUserNameEndTag :: after := by
    rw [← List.drop_drop, List.drop_left]
    rfl
  have hclose : strchr (user ++ kUserNameEndTag :: after) kUserNameEndTag = some user.length := by
    rw [strchr, if_neg (by decide)]
    exact memchr_append huser
  simp only [Message.getUser, if_pos htype, hopen, hstart, hclose, hpos, hle, and_self, if_true,
    List.take_left]

/-- The converse: a user that was found stood in brackets, the first opening one
and the closing one that follows it. -/
theorem getUser_eq_some {message user : Bytes} {type : C2HMessageType} {length : ℕ}
    (h : Message.getUser message type length = some user) :
    (type = .msg ∨ type = .log) ∧ 0 < user.length ∧ user.length ≤ length ∧
      ∃ before after, message = before ++ kUserNameStartTag :: (user ++ kUserNameEndTag :: after) ∧
        kUserNameStartTag ∉ before ∧ kUserNameEndTag ∉ user := by
  unfold Message.getUser at h
  split at h
  · next htype =>
    cases hopen : strchr message kUserNameStartTag with
    | none => simp [hopen] at h
    | some i =>
      rw [strchr, if_neg (by decide)] at hopen
      obtain ⟨before, t, rfl, hbefore, rfl⟩ := memchr_eq_some hopen
      have hstart : (before ++ kUserNameStartTag :: t).drop (before.length + 1) = t := by
        rw [← List.drop_drop, List.drop_left]
        rfl
      rw [strchr, if_neg (by decide), hopen] at h
      simp only [hstart] at h
      cases hclose : strchr t kUserNameEndTag with
      | none => simp [hclose] at h
      | some n =>
        have hclose' := hclose
        rw [strchr, if_neg (by decide)] at hclose'
        obtain ⟨u, after, rfl, hu, rfl⟩ := memchr_eq_some hclose'
        simp only [hclose, List.take_left] at h
        split at h
        · next hlen =>
          cases h
          exact ⟨htype, hlen.1, hlen.2, before, after, rfl, hbefore, hu⟩
        · cases h
  · cases h

/-- What stands in front of the first bracket does not matter. -/
theorem getUser_append {before : Bytes} (hbefore : kUserNameStartTag ∉ before) (message : Bytes)
    (type : C2HMessageType) (length : ℕ) :
    Message.getUser (before ++ message) type length = Message.getUser message type length := by
  have hopen : strchr (before ++ message) kUserNameStartTag =
      (strchr message kUserNameStartTag).map (before.length + ·) := by
    rw [strchr, if_neg (by decide), strchr, if_neg (by decide), memchr_append_left hbefore]
  unfold Message.getUser
  rw [hopen]
  cases strchr message kUserNameStartTag with
  | none => rfl
  | some i =>
    simp only [Option.map_some]
    rw [Nat.add_assoc, ← List.drop_drop, List.drop_left]

/-- Nor does a text without brackets behind it. -/
theorem getUser_append_right {after : Bytes} (hafter : kUserNameEndTag ∉ after) (message : Bytes)
    (type : C2HMessageType) (length : ℕ) :
    Message.getUser (message ++ after) type length = Message.getUser message type length := by
  apply Option.ext
  intro user
  constructor
  · intro h
    obtain ⟨htype, hpos, hle, before, rest, heq, hbefore, hend⟩ := getUser_eq_some h
    have htag : ∀ w, Message.getUser (before ++ kUserNameStartTag ::
        (user ++ kUserNameEndTag :: w)) type length = some user := fun w =>
      getUser_tag htype hbefore hend hpos hle
    have heq' : message ++ after =
        (before ++ kUserNameStartTag :: (user ++ [kUserNameEndTag])) ++ rest := by
      simpa using heq
    rcases List.append_eq_append_iff.mp heq' with ⟨w, hw, hrest⟩ | ⟨w, hw, -⟩
    · -- the closing bracket is the last byte in front of `rest`, so it is in the message
      rcases List.eq_nil_or_concat w with rfl | ⟨w, c, rfl⟩
      · rw [List.append_nil] at hw
        rw [← hw]
        exact htag []
      · have hc : kUserNameEndTag = c := by
          have hw' : (before ++ kUserNameStartTag :: user) ++ [kUserNameEndTag] =
              (message ++ w) ++ [c] := by simpa using hw
          simpa using (List.append_inj' hw' rfl).2
        exact absurd (by simp [hrest, hc]) hafter
    · rw [hw]
      simpa using htag w
  · intro h
    obtain ⟨htype, hpos, hle, before, rest, rfl, hbefore, hend⟩ := getUser_eq_some h
    have htag := @getUser_tag type htype before user (rest ++ after) length hbefore hend hpos hle
    simpa using htag

/-- The parts of a text without a NUL have none. -/
theorem nulFree_user {message user : Bytes} {type : C2HMessageType} {length : ℕ}
    (hnul : (0 : UInt8) ∉ message) (h : Message.getUser message type length = some user) :
    (0 : UInt8) ∉ user := by
  obtain ⟨-, -, -, before, after, rfl, -, -⟩ := getUser_eq_some h
  exact fun hm => hnul (by simp [hm])

/-- A user that leaves room for the terminator is written as it is. -/
theorem writeUser_eq {user : Bytes} (hnul : (0 : UInt8) ∉ user)
    (hlt : user.length < kMaxNicknameSize) :
    Message.writeUser (some user) = .ok ⟨user, hnul⟩ := by
  rw [Message.writeUser, Option.getD_some, if_pos hlt]
  exact congrArg Except.ok (CStr.ext (CStr.bytes_ofBlock_of_nulFree hnul))

theorem writeUser_full {user : Bytes} (hle : kMaxNicknameSize ≤ user.length) :
    Message.writeUser (some user) = .error .outOfBounds := by
  rw [Message.writeUser, Option.getD_some, if_neg (not_lt.mpr hle)]

/-- The bytes that are taken for the tag of a text: the user, the brackets and one
space. -/
def tagLength (type : C2HMessageType) (text : Bytes) : ℕ :=
  match Message.getUser text type kMaxNicknameSize with
  | none => 0
  | some user => user.length + 3

theorem tagLength_none {type : C2HMessageType} {text : Bytes}
    (h : Message.getUser text type kMaxNicknameSize = none) : tagLength type text = 0 := by
  rw [tagLength, h]

theorem tagLength_some {type : C2HMessageType} {text user : Bytes}
    (h : Message.getUser text type kMaxNicknameSize = some user) :
    tagLength type text = user.length + 3 := by
  rw [tagLength, h]

/-- What the programs compute from the string in the user field. -/
theorem tagSkip_eq {type : C2HMessageType} {text : Bytes} (hnul : (0 : UInt8) ∉ text) :
    tagSkip (CStr.ofBlock ((Message.getUser text type kMaxNicknameSize).getD [])) =
      tagLength type text := by
  cases hu : Message.getUser text type kMaxNicknameSize with
  | none => rw [tagLength_none hu]; rfl
  | some user =>
    obtain ⟨-, hpos, -⟩ := getUser_eq_some hu
    rw [tagLength_some hu, Option.getD_some, tagSkip,
      CStr.bytes_ofBlock_of_nulFree (nulFree_user hnul hu), if_pos hpos]

/-! ### The text of a frame -/

/-- The body of a frame: the content behind its tag. -/
def body (m : C2HMessage) : Bytes :=
  if m.user.bytes.length > 0 then
    kUserNameStartTag :: (m.user.bytes ++ kUserNameEndTag :: 32 :: m.content.bytes)
  else m.content.bytes

/-- A command and its body; a space stands between them when there is a body. -/
def commandText (command body : Bytes) : Bytes :=
  command ++ (if body.length > 0 then 32 :: body else [])

/-- The text of a message of a wire type, before any truncation. -/
def fullText (m : C2HMessage) : Bytes := commandText (m.type.commandPrefix.getD []) (body m)

theorem nulFree_commandPrefix {type : C2HMessageType} {command : Bytes}
    (h : type.commandPrefix = some command) : (0 : UInt8) ∉ command := by
  cases type <;> simp [C2HMessageType.commandPrefix, ascii] at h <;> subst h <;> decide

/-- The formats of `Message_format` and `C2HMessage_format`. -/
theorem expand_tagged (user content : CStr) :
    expand (ascii "[%s] %s") [user, content] =
      .ok (kUserNameStartTag :: (user.bytes ++ kUserNameEndTag :: 32 :: content.bytes)) := by
  rw [show ascii "[%s] %s" = [kUserNameStartTag] ++ (percent :: 115 ::
      ([kUserNameEndTag, 32] ++ (percent :: 115 :: []))) by decide,
    expand_literal_append (by decide), expand_string, expand_literal_append (by decide),
    expand_string]
  simp [Except.map]

theorem expand_one (s : CStr) : expand (ascii "%s") [s] = .ok s.bytes := by
  rw [show ascii "%s" = percent :: 115 :: [] by decide, expand_string]
  simp [Except.map]

theorem expand_two (s t : CStr) :
    expand (ascii "%s %s") [s, t] = .ok (s.bytes ++ 32 :: t.bytes) := by
  rw [show ascii "%s %s" = percent :: 115 :: ([32] ++ (percent :: 115 :: [])) by decide,
    expand_string, expand_literal_append (by decide), expand_string]
  simp [Except.map]

/-- `Message_format` with a buffer of `bodySize` bytes for the body.  The source has one
of `size` bytes, the size of the destination. -/
def Message.formatThrough (bodySize : ℕ) (type : C2HMessageType) (dest : CStr) (size : ℕ)
    (fmt : Bytes) (args : List CStr) : Except Fault CStr :=
  match type.commandPrefix with
  | none => .ok dest
  | some commandPrefix =>
    (vsnprintf bodySize fmt args).bind fun buffer =>
      if buffer.bytes.length > 0 then
        vsnprintf size (ascii "%s %s") [CStr.ofBlock commandPrefix, buffer]
      else
        vsnprintf size (ascii "%s") [CStr.ofBlock commandPrefix]

/-- `C2HMessage_format` through such a buffer. -/
def C2HMessage.formatThrough (bodySize : ℕ) (message : C2HMessage) (dest : CStr) (size : ℕ) :
    Except Fault CStr :=
  if message.user.bytes.length > 0 then
    Message.formatThrough bodySize message.type dest size (ascii "[%s] %s")
      [message.user, message.content]
  else
    Message.formatThrough bodySize message.type dest size (ascii "%s") [message.content]

theorem formatThrough_self (m : C2HMessage) (dest : CStr) (size : ℕ) :
    C2HMessage.formatThrough size m dest size = C2HMessage.format m dest size := rfl

/-- `Message_format` of a text that the format describes, through a buffer that is not
smaller than the destination: the command, and the text behind a space, cut to the size
of the destination. -/
theorem messageFormat_eq_take {type : C2HMessageType} {command fmt text : Bytes}
    (hcommand : type.commandPrefix = some command) (dest : CStr) {bodySize size : ℕ}
    (hsize : size ≤ bodySize) {args : List CStr} (hfmt : (0 : UInt8) ∉ fmt)
    (htext : expand fmt args = .ok text) :
    ∃ out, Message.formatThrough bodySize type dest size fmt args = .ok out ∧
      out.bytes = (commandText command text).take (size - 1) := by
  obtain ⟨buffer, hbuffer, hbytes⟩ := vsnprintf_eq_ok bodySize hfmt htext
  have hprefix := CStr.bytes_ofBlock_of_nulFree (nulFree_commandPrefix hcommand)
  simp only [Message.formatThrough, hcommand, hbuffer, Except.bind]
  by_cases hpos : buffer.bytes.length > 0
  · rw [if_pos hpos]
    obtain ⟨out, hout, heq⟩ := vsnprintf_eq_ok size (by decide)
      (expand_two (CStr.ofBlock command) buffer)
    refine ⟨out, hout, ?_⟩
    have htpos : text.length > 0 := by
      rw [hbytes, List.length_take] at hpos
      omega
    -- the body has been cut to `bodySize - 1` bytes already, at least what is left for it
    rw [heq, hprefix, hbytes, commandText, if_pos htpos, List.take_append, List.take_append]
    congr 1
    cases hk : size - 1 - command.length with
    | zero => simp
    | succ k =>
      rw [List.take_succ_cons, List.take_succ_cons, List.take_take]
      congr 2
      omega
  · rw [if_neg hpos]
    obtain ⟨out, hout, heq⟩ := vsnprintf_eq_ok size (by decide)
      (expand_one (CStr.ofBlock command))
    refine ⟨out, hout, ?_⟩
    rw [heq, hprefix, commandText]
    rw [hbytes, List.length_take] at hpos
    by_cases htpos : text.length > 0
    · have hk : size - 1 = 0 := by omega
      simp [hk]
    · rw [if_neg htpos, List.append_nil]

/-- The destination holds the first `size - 1` bytes of the full text, whatever the size
of the buffer for the body, as long as that is not the smaller one. -/
theorem formatThrough_eq_take {m : C2HMessage} {command : Bytes}
    (hcommand : m.type.commandPrefix = some command) (dest : CStr) {bodySize size : ℕ}
    (hsize : size ≤ bodySize) :
    ∃ out, C2HMessage.formatThrough bodySize m dest size = .ok out ∧
      out.bytes = (fullText m).take (size - 1) := by
  have hfull : fullText m = commandText command (body m) := by
    rw [fullText, hcommand, Option.getD_some]
  rw [hfull]
  unfold C2HMessage.formatThrough body
  by_cases huser : m.user.bytes.length > 0
  · simp only [if_pos huser]
    exact messageFormat_eq_take hcommand dest hsize (by decide) (expand_tagged _ _)
  · simp only [if_neg huser]
    exact messageFormat_eq_take hcommand dest hsize (by decide) (expand_one _)

/-- `C2HMessage_format` uses the size of the destination for both. -/
theorem format_eq_take {m : C2HMessage} {command : Bytes}
    (hcommand : m.type.commandPrefix = some command) (dest : CStr) (size : ℕ) :
    ∃ out, C2HMessage.format m dest size = .ok out ∧
      out.bytes = (fullText m).take (size - 1) := by
  rw [← formatThrough_self]
  exact formatThrough_eq_take hcommand dest le_rfl

theorem exists_commandPrefix {type : C2HMessageType} (h : type ∈ wireTypes) :
    ∃ command, type.commandPrefix = some command := by
  simp only [wireTypes, List.mem_cons, List.not_mem_nil, or_false] at h
  rcases h with rfl | rfl | rfl | rfl | rfl | rfl <;> exact ⟨_, rfl⟩

/-- The bytes `C2HMessage_format` announces: the string it wrote and its
terminator. -/
def announced (out : CStr) : Bytes := out.bytes ++ [0]

/-- What `C2HMessage_format` returns: the length of the string it wrote, plus one. -/
def C2HMessage.formattedSize (message : C2HMessage) (dest : CStr) (size : ℕ) : Except Fault ℕ :=
  (C2HMessage.format message dest size).map fun out => out.bytes.length + 1

/-- **Formatting truncates once**: the destination gets the first `size - 1` bytes of the
full text and the terminator, and their number is returned; a larger buffer for the
body would change nothing. -/
theorem format_truncates_once {m : C2HMessage} (htype : m.type ∈ wireTypes) (dest : CStr)
    {size : ℕ} (hsize : 1 ≤ size) :
    ∃ out, C2HMessage.format m dest size = .ok out ∧
      announced out = (fullText m).take (size - 1) ++ [0] ∧
      C2HMessage.formattedSize m dest size = .ok (min (size - 1) (fullText m).length + 1) ∧
      min (size - 1) (fullText m).length + 1 ≤ size ∧
      ∀ bodySize ≥ size, C2HMessage.formatThrough bodySize m dest size = .ok out := by
  obtain ⟨command, hcommand⟩ := exists_commandPrefix htype
  obtain ⟨out, hout, hbytes⟩ := format_eq_take hcommand dest size
  have hle : min (size - 1) (fullText m).length ≤ size - 1 := min_le_left _ _
  refine ⟨out, hout, ?_, ?_, by omega, fun bodySize hbody => ?_⟩
  · rw [announced, hbytes]
  · rw [C2HMessage.formattedSize, hout, ← List.length_take, ← hbytes]
    rfl
  · obtain ⟨out', hout', hbytes'⟩ := formatThrough_eq_take hcommand dest hbody
    have heq : out' = out := CStr.ext (hbytes'.trans hbytes.symm)
    rw [hout', heq]

/-- Three bytes of destination hold two of the prefix. -/
theorem format_truncates_once_three :
    ∃ out, C2HMessage.format ⟨.msg, str "hi", str "Joe"⟩ CStr.empty 3 = .ok out ∧
      announced out = (fullText ⟨.msg, str "hi", str "Joe"⟩).take 2 ++ [0] ∧
      C2HMessage.formattedSize ⟨.msg, str "hi", str "Joe"⟩ CStr.empty 3 = .ok 3 := by
  obtain ⟨out, hout, hwritten, hreturned, -⟩ :=
    format_truncates_once (m := ⟨.msg, str "hi", str "Joe"⟩) (by decide) CStr.empty
      (by decide : 1 ≤ 3)
  exact ⟨out, hout, hwritten, hreturned⟩

/-! ### The type of a frame -/

/-- A command is recognised with whatever follows it, except that all but `/ok` and
`/quit` must have something behind them. -/
theorem getType_command {type : C2HMessageType} {command : Bytes}
    (hcommand : type.commandPrefix = some command) {rest : Bytes}
    (hrest : rest = [] → type = .ok ∨ type = .quit) :
    Message.getType (command ++ rest) = (type, rest) := by
  cases type <;> simp [C2HMessageType.commandPrefix, ascii] at hcommand <;> subst hcommand <;>
    cases rest <;> simp_all [Message.getType, Message.getTypeFrom, Message.typePrefixes, ascii]

/-- The tests of `Message_getType` recognise nothing in the empty string. -/
theorem getTypeFrom_nil (length : ℕ) {tests : List (C2HMessageType × Bytes × Bool)}
    (htests : ∀ t ∈ tests, t.2.1 ≠ []) : (Message.getTypeFrom length tests []).1 = .null := by
  induction tests with
  | nil => rfl
  | cons t tests ih =>
    obtain ⟨type, command, mandatory⟩ := t
    have hcommand : command ≠ [] := htests _ (List.mem_cons_self ..)
    rw [Message.getTypeFrom, if_neg (fun h => hcommand (by simpa using h.2.symm))]
    exact ih fun t ht => htests t (List.mem_cons_of_mem _ ht)

theorem getTypeFrom_cases (length : ℕ) {tests : List (C2HMessageType × Bytes × Bool)}
    (htests : ∀ t ∈ tests, t.2.1 ≠ []) (message : Bytes)
    (h : (Message.getTypeFrom length tests message).1 ≠ .null) :
    ∃ t ∈ tests, t.1 = (Message.getTypeFrom length tests message).1 ∧
      message = t.2.1 ++ (Message.getTypeFrom length tests message).2 := by
  induction tests with
  | nil => exact absurd rfl h
  | cons t tests ih =>
    obtain ⟨type, command, mandatory⟩ := t
    have htests' : ∀ t ∈ tests, t.2.1 ≠ [] := fun t ht => htests t (List.mem_cons_of_mem _ ht)
    rw [Message.getTypeFrom] at h ⊢
    dsimp only at h ⊢
    split
    · next hmatch =>
      rw [if_pos hmatch] at h
      have hsplit : message = command ++ message.drop command.length := by
        conv_lhs => rw [← List.take_append_drop command.length message, hmatch.2]
      split
      · exact ⟨_, List.mem_cons_self .., rfl, hsplit⟩
      · next hrest =>
        -- the mandatory content is missing: the later tests see an empty string
        rw [if_neg hrest] at h
        have hnil : message.drop command.length = [] := by
          rw [not_or] at hrest
          exact List.eq_nil_of_length_eq_zero (by omega)
        rw [hnil] at h
        exact absurd (getTypeFrom_nil length htests') h
    · next hmatch =>
      rw [if_neg hmatch] at h
      obtain ⟨t, ht, heq, hsplit⟩ := ih htests' h
      exact ⟨t, List.mem_cons_of_mem _ ht, heq, hsplit⟩

/-- **A recognised text starts with the command of its type.** -/
theorem getType_split {message : Bytes} (h : (Message.getType message).1 ≠ .null) :
    (Message.getType message).1 ∈ wireTypes ∧
      ∃ command, (Message.getType message).1.commandPrefix = some command ∧
        message = command ++ (Message.getType message).2 := by
  obtain ⟨t, ht, heq, hsplit⟩ := getTypeFrom_cases message.length
    (by decide : ∀ t ∈ Message.typePrefixes, t.2.1 ≠ []) message h
  change t.1 = (Message.getType message).1 at heq
  rw [← heq]
  refine ⟨?_, t.2.1, ?_, hsplit⟩
  · exact (by decide : ∀ t ∈ Message.typePrefixes, t.1 ∈ wireTypes) t ht
  · exact (by decide : ∀ t ∈ Message.typePrefixes, t.1.commandPrefix = some t.2.1) t ht

theorem commandPrefix_facts {type : C2HMessageType} {command : Bytes}
    (h : type.commandPrefix = some command) :
    kUserNameStartTag ∉ command ∧ command.head? = some slash ∧ type ≠ .null := by
  cases type <;> cases h <;> exact ⟨by decide, by decide, by decide⟩

/-- A recognised frame, taken apart behind its command. -/
structure Splits (data : CStr) (type : C2HMessageType) (command rest : Bytes) : Prop where
  /-- The frame consists of the two parts. -/
  parts : data.bytes = command ++ rest
  /-- `Message_getType` finds the type, and leaves the pointer at the second part. -/
  typed : Message.getType data.bytes = (type, rest)
  /-- The first part is the command. -/
  command : type.commandPrefix = some command

theorem exists_splits {data : CStr} (h : (Message.getType data.bytes).1 ≠ .null) :
    ∃ type command rest, Splits data type command rest := by
  obtain ⟨-, command, hcommand, hsplit⟩ := getType_split h
  exact ⟨_, command, _, hsplit, rfl, hcommand⟩

namespace Splits

variable {type : C2HMessageType} {data : CStr} {command rest : Bytes}

theorem of_command (hcommand : type.commandPrefix = some command)
    (hdata : data.bytes = command ++ rest) (hrest : rest = [] → type = .ok ∨ type = .quit) :
    Splits data type command rest :=
  ⟨hdata, by rw [hdata, getType_command hcommand hrest], hcommand⟩

theorem ne_null (h : Splits data type command rest) : type ≠ .null :=
  (commandPrefix_facts h.command).2.2

theorem head_slash (h : Splits data type command rest) : data.bytes.head? = some slash := by
  rw [h.parts, List.head?_append, (commandPrefix_facts h.command).2.1]
  rfl

theorem nulFree (h : Splits data type command rest) :
    (0 : UInt8) ∉ command ∧ (0 : UInt8) ∉ rest := by
  have hnul := data.nulFree
  rw [h.parts, List.mem_append, not_or] at hnul
  exact hnul

/-- There is one way to take a frame apart. -/
theorem unique (h : Splits data type command rest) {type' : C2HMessageType}
    {command' rest' : Bytes} (hcommand' : type'.commandPrefix = some command')
    (hdata' : data.bytes = command' ++ rest') (hrest' : rest' ≠ []) :
    type' = type ∧ command' = command ∧ rest' = rest := by
  have htype := h.typed
  rw [hdata', getType_command hcommand' fun h => absurd h hrest', Prod.mk.injEq] at htype
  obtain ⟨rfl, rfl⟩ := htype
  exact ⟨rfl, Option.some.inj (hcommand'.symm.trans h.command), rfl⟩

end Splits

/-! ### Decoding a frame -/

theorem ofBlock_take {s : Bytes} (hs : (0 : UInt8) ∉ s) (t : Bytes) {n : ℕ} (hn : s.length ≤ n) :
    (CStr.ofBlock ((s ++ 0 :: t).take n)).bytes = s := by
  rw [List.take_append, List.take_of_length_le hn]
  cases hk : n - s.length with
  | zero => simpa using CStr.bytes_ofBlock_of_nulFree hs
  | succ k => rw [List.take_succ_cons, CStr.bytes_ofBlock_append hs]

theorem length_strip_le (seps s : Bytes) : (strip seps s).length ≤ s.length :=
  le_trans (List.dropWhile_suffix _).length_le (List.rdropWhile_prefix _ s).length_le

/-- Only chat and log messages have a user. -/
theorem getUser_of_not_tag {type : C2HMessageType} (h : ¬ (type = .msg ∨ type = .log))
    (message : Bytes) (length : ℕ) : Message.getUser message type length = none := by
  rw [Message.getUser, if_neg h]

/-- Where the decoder finds the parts of a message, given the text that trimming leaves
behind the command. -/
theorem decode_eq {type : C2HMessageType} {data : CStr} {command rest text tail : Bytes}
    (h : Splits data type command rest)
    (htrim : trim (rest ++ [0]) defaultSeps = text ++ 0 :: tail) (htext : (0 : UInt8) ∉ text) :
    C2HMessage.decode data =
      if (type = .ok ∨ type = .quit) ∧ text.length = 0 then .bare type
      else .copy type (Message.getUser text type kMaxNicknameSize)
        (command ++ (text ++ 0 :: tail)) (command.length + tagLength type text)
        (command.length + rest.length) := by
  have hcursor : data.bytes.length - rest.length = command.length := by
    rw [h.parts, List.length_append, Nat.add_sub_cancel]
  have htake : data.bytes.take command.length = command := by rw [h.parts, List.take_left]
  have hlen : data.bytes.length = command.length + rest.length := by
    rw [h.parts, List.length_append]
  have hblock : (CStr.ofBlock (command ++ (text ++ 0 :: tail))).bytes = command ++ text := by
    rw [← List.append_assoc]
    exact CStr.bytes_ofBlock_append (by simp [h.nulFree.1, htext]) tail
  have huser : (if type = .msg ∨ type = .log then
      Message.getUser (command ++ text) type kMaxNicknameSize else none) =
        Message.getUser text type kMaxNicknameSize := by
    split
    · exact getUser_append (commandPrefix_facts h.command).1 text type kMaxNicknameSize
    · next htag => exact (getUser_of_not_tag htag _ _).symm
  simp only [C2HMessage.decode, h.typed, if_neg h.ne_null, hcursor, htake, htrim, List.drop_left,
    strlen_append htext, hblock, huser, tagSkip_eq htext]
  rw [hlen]

/-- What the decoder makes of a frame. -/
theorem parse_eq {type : C2HMessageType} {data : CStr} {command rest text tail : Bytes}
    (h : Splits data type command rest)
    (htrim : trim (rest ++ [0]) defaultSeps = text ++ 0 :: tail) (htext : (0 : UInt8) ∉ text) :
    C2HMessage.parse data =
      if (type = .ok ∨ type = .quit) ∧ text.length = 0 then
        .ok (some ⟨type, CStr.empty, CStr.empty⟩)
      else (Message.writeUser (Message.getUser text type kMaxNicknameSize)).bind fun user =>
        if rest.length < tagLength type text then .error .badLength
        else if kBufferSize < rest.length - tagLength type text then .error .outOfBounds
        else .ok (some ⟨type, CStr.ofBlock (((text ++ 0 :: tail).drop (tagLength type text)).take
          (rest.length - tagLength type text)), user⟩) := by
  have hdrop : (command ++ (text ++ 0 :: tail)).drop (command.length + tagLength type text) =
      (text ++ 0 :: tail).drop (tagLength type text) := by
    rw [← List.drop_drop, List.drop_left]
  rw [C2HMessage.parse, decode_eq h htrim htext]
  by_cases hbare : (type = .ok ∨ type = .quit) ∧ text.length = 0
  · rw [if_pos hbare, if_pos hbare]
  · simp only [if_neg hbare, hdrop, Nat.add_sub_add_left, Nat.add_lt_add_iff_left]

/-- A frame without a user tag decodes to its stripped text, when it fits. -/
theorem parse_untagged {type : C2HMessageType} {data : CStr} {command rest : Bytes}
    (h : Splits data type command rest)
    (huser : Message.getUser (strip defaultSeps rest) type kMaxNicknameSize = none)
    (hfit : rest.length ≤ kBufferSize) :
    ∃ m, C2HMessage.parse data = .ok (some m) ∧ m.type = type ∧ m.user = CStr.empty ∧
      m.content.bytes = strip defaultSeps rest := by
  have hstrip := nulFree_strip h.nulFree.2 defaultSeps
  obtain ⟨tail, htrim, -⟩ := trim_block defaultSeps h.nulFree.2 []
  rw [parse_eq h htrim hstrip]
  by_cases hempty : (type = .ok ∨ type = .quit) ∧ (strip defaultSeps rest).length = 0
  · rw [if_pos hempty]
    exact ⟨_, rfl, rfl, rfl, (List.eq_nil_of_length_eq_zero hempty.2).symm⟩
  · rw [if_neg hempty, huser, tagLength_none huser]
    refine ⟨⟨type, _, CStr.empty⟩, ?_, rfl, rfl,
      ofBlock_take hstrip tail (length_strip_le defaultSeps rest)⟩
    simp only [Message.writeUser, Option.getD_none, Nat.sub_zero, List.drop_zero,
      if_neg (Nat.not_lt_zero _), if_neg (not_lt.mpr hfit)]
    rfl

theorem not_optional_of_tag {type : C2HMessageType} (htag : type = .msg ∨ type = .log) :
    ¬ (type = .ok ∨ type = .quit) := by
  rcases htag with h | h <;> rw [h] <;> decide

/-- A frame with a user in it.  The decoder takes as many bytes off as the tag and
one space have, wherever the tag was found; it needs that many behind the command,
and the rest has to fit its field. -/
theorem parse_of_user {type : C2HMessageType} {data : CStr} {command rest text tail user : Bytes}
    (h : Splits data type command rest)
    (htrim : trim (rest ++ [0]) defaultSeps = text ++ 0 :: tail) (htext : (0 : UInt8) ∉ text)
    (huser : Message.getUser text type kMaxNicknameSize = some user)
    (hlt : user.length < kMaxNicknameSize) :
    ∃ m, m.type = type ∧ m.user.bytes = user ∧
      m.content = CStr.ofBlock (((text ++ 0 :: tail).drop (user.length + 3)).take
        (rest.length - (user.length + 3))) ∧
      C2HMessage.parse data =
        if rest.length < user.length + 3 then .error .badLength
        else if kBufferSize < rest.length - (user.length + 3) then .error .outOfBounds
        else .ok (some m) := by
  obtain ⟨htag, -, -, -⟩ := getUser_eq_some huser
  refine ⟨⟨type, CStr.ofBlock (((text ++ 0 :: tail).drop (user.length + 3)).take
    (rest.length - (user.length + 3))), ⟨user, nulFree_user htext huser⟩⟩, rfl, rfl, rfl, ?_⟩
  rw [parse_eq h htrim htext, if_neg (fun h => not_optional_of_tag htag h.1), huser, tagLength_some huser,
    writeUser_eq (nulFree_user htext huser) hlt]
  rfl

/-- A user in its brackets. -/
def userTag (user : Bytes) : Bytes := kUserNameStartTag :: (user ++ [kUserNameEndTag])

/-- Neither bracket is a separator, so trimming stops at a tag from both sides. -/
theorem rdropWhile_userTag (user : Bytes) :
    (32 :: userTag user).rdropWhile (· ∈ defaultSeps) = 32 :: userTag user := by
  show ((32 :: kUserNameStartTag :: user) ++ [kUserNameEndTag]).rdropWhile _ = _
  rw [List.rdropWhile_concat_neg _ _ _ (by decide)]
  rfl

theorem dropWhile_userTag (user t : Bytes) :
    (32 :: (userTag user ++ t)).dropWhile (· ∈ defaultSeps) = userTag user ++ t := by
  rw [List.dropWhile_cons_of_pos (by decide), userTag, List.cons_append,
    List.dropWhile_cons_of_neg (by decide)]

theorem rdropWhile_space (content : Bytes) :
    (32 :: content).rdropWhile (· ∈ defaultSeps) =
      if content.rdropWhile (· ∈ defaultSeps) = [] then []
      else 32 :: content.rdropWhile (· ∈ defaultSeps) := by
  have h := rdropWhile_append (· ∈ defaultSeps) [32] content
  rw [show List.rdropWhile (fun x => decide (x ∈ defaultSeps)) [32] = [] by decide] at h
  exact h

theorem nulFree_userTag {user : Bytes} (hnul : (0 : UInt8) ∉ user) :
    (0 : UInt8) ∉ 32 :: userTag user := by
  simp only [userTag, List.mem_append, List.mem_cons, List.not_mem_nil, or_false, not_or]
  exact ⟨by decide, by decide, hnul, by decide⟩

section Tagged

variable {user content : Bytes}

theorem nulFree_tagged (huser : (0 : UInt8) ∉ user) (hcontent : (0 : UInt8) ∉ content) :
    (0 : UInt8) ∉ 32 :: userTag user ++ 32 :: content := by
  intro h
  rcases List.mem_append.mp h with h | h
  · exact nulFree_userTag huser h
  · exact hcontent ((List.mem_cons.mp h).resolve_left (by decide))

/-- Trimming a tag in front of a text. -/
theorem trim_tagged (huser : (0 : UInt8) ∉ user) (hcontent : (0 : UInt8) ∉ content)
    (hblank : content.rdropWhile (· ∈ defaultSeps) ≠ []) :
    ∃ tail, trim (32 :: userTag user ++ 32 :: content ++ [0]) defaultSeps =
      userTag user ++ 32 :: content.rdropWhile (· ∈ defaultSeps) ++ 0 :: tail := by
  obtain ⟨tail, htrim, -⟩ := trim_block defaultSeps (nulFree_tagged huser hcontent) []
  refine ⟨tail, ?_⟩
  have hright : (32 :: userTag user ++ 32 :: content).rdropWhile (· ∈ defaultSeps) =
      32 :: (userTag user ++ 32 :: content.rdropWhile (· ∈ defaultSeps)) := by
    rw [rdropWhile_append, rdropWhile_space, if_neg hblank, if_neg (List.cons_ne_nil _ _)]
    rfl
  rw [htrim, strip, hright, dropWhile_userTag]

/-- Trimming a tag with nothing but separators behind it leaves only zero bytes
there. -/
theorem trim_tagged_blank (huser : (0 : UInt8) ∉ user) (hcontent : (0 : UInt8) ∉ content)
    (hblank : content.rdropWhile (· ∈ defaultSeps) = []) :
    ∃ k, trim (32 :: userTag user ++ 32 :: content ++ [0]) defaultSeps =
      userTag user ++ 0 :: List.replicate k 0 := by
  have hright : (32 :: userTag user ++ 32 :: content).rdropWhile (· ∈ defaultSeps) =
      32 :: userTag user := by
    rw [rdropWhile_append, rdropWhile_space, if_pos hblank, if_pos rfl, rdropWhile_userTag]
  have hstrip : strip defaultSeps (32 :: userTag user ++ 32 :: content) = userTag user := by
    have hleft := dropWhile_userTag user []
    rw [List.append_nil] at hleft
    rw [strip, hright, hleft]
  obtain ⟨tail, htrim, -, htail⟩ := trim_block defaultSeps (nulFree_tagged huser hcontent) []
  rw [hstrip] at htrim htail
  -- the moved text ends where the bytes zeroed by `rtrim` began
  have hzeros := htail (List.cons_ne_nil _ _)
  rw [hright, show (userTag user).length + 1 = (32 :: userTag user).length from rfl,
    List.append_assoc, List.drop_left, ← List.replicate_succ'] at hzeros
  exact ⟨_, by rw [htrim, hzeros]⟩

theorem getUser_userTag {type : C2HMessageType} (htag : type = .msg ∨ type = .log)
    (huser : kUserNameEndTag ∉ user) (hpos : 0 < user.length)
    (hle : user.length ≤ kMaxNicknameSize) (after : Bytes) :
    Message.getUser (userTag user ++ after) type kMaxNicknameSize = some user := by
  have htag := @getUser_tag type htag [] user after _ (by simp) huser hpos hle
  simpa [userTag] using htag

theorem length_userTag (user : Bytes) : (userTag user).length = user.length + 2 := by
  simp [userTag]

theorem drop_userTag (user after : Bytes) :
    (userTag user ++ after).drop (user.length + 3) = after.drop 1 := by
  rw [show user.length + 3 = (userTag user).length + 1 by rw [length_userTag], ← List.drop_drop,
    List.drop_left]

/-- **A tagged frame**, as the encoder writes it, decodes to the user and to the
content without its trailing separators. -/
theorem parse_tagged {type : C2HMessageType} (htag : type = .msg ∨ type = .log) {data : CStr}
    {command : Bytes} (h : Splits data type command (32 :: userTag user ++ 32 :: content))
    (huser : kUserNameEndTag ∉ user) (hpos : 0 < user.length)
    (hlt : user.length < kMaxNicknameSize) (hfit : content.length < kBufferSize) :
    ∃ m, C2HMessage.parse data = .ok (some m) ∧ m.type = type ∧ m.user.bytes = user ∧
      m.content.bytes = content.rdropWhile (· ∈ defaultSeps) := by
  have hnul := h.nulFree.2
  simp only [userTag, List.cons_append, List.append_assoc, List.mem_append, List.mem_cons,
    not_or] at hnul
  obtain ⟨-, -, hunul, -, -, -, hcnul⟩ := hnul
  have hlen : (32 :: userTag user ++ 32 :: content).length = user.length + 3 + 1 + content.length := by
    simp only [List.cons_append, List.length_cons, List.length_append, length_userTag]
    omega
  have htagNul : (0 : UInt8) ∉ userTag user := fun h => nulFree_userTag hunul (by simp [h])
  by_cases hblank : content.rdropWhile (· ∈ defaultSeps) = []
  · obtain ⟨k, htrim⟩ := trim_tagged_blank hunul hcnul hblank
    obtain ⟨m, hmtype, hmuser, hmcontent, hm⟩ := parse_of_user h htrim htagNul
      (by simpa using getUser_userTag htag huser hpos hlt.le []) hlt
    rw [if_neg (by omega), if_neg (by omega)] at hm
    refine ⟨m, hm, hmtype, hmuser, ?_⟩
    rw [hmcontent, hblank, drop_userTag, List.drop_one, List.tail_cons,
      List.take_replicate, CStr.ofBlock_replicate_zero, CStr.bytes_empty]
  · obtain ⟨tail, htrim⟩ := trim_tagged hunul hcnul hblank
    have hnul' := nulFree_rdropWhile hcnul (· ∈ defaultSeps)
    obtain ⟨m, hmtype, hmuser, hmcontent, hm⟩ := parse_of_user h htrim
      (by simpa using ⟨htagNul, hnul'⟩) (getUser_userTag htag huser hpos hlt.le _) hlt
    rw [if_neg (by omega), if_neg (by omega)] at hm
    refine ⟨m, hm, hmtype, hmuser, ?_⟩
    rw [hmcontent, List.append_assoc, drop_userTag]
    refine ofBlock_take hnul' tail ?_
    have := (List.rdropWhile_prefix (fun x => decide (x ∈ defaultSeps)) content).length_le
    rw [hlen]
    omega

end Tagged

/-! ### Trimming a text -/

theorem strip_space (text : Bytes) :
    strip defaultSeps (32 :: text) = strip defaultSeps text := by
  rw [strip, strip, rdropWhile_space]
  split
  · next h => rw [h]
  · rw [List.dropWhile_cons_of_pos (by decide)]

/-- Trimming brings no user into a text, and takes none out of it. -/
theorem getUser_strip (text : Bytes) (type : C2HMessageType) (length : ℕ) :
    Message.getUser (strip defaultSeps text) type length = Message.getUser text type length := by
  obtain ⟨lead, trail, htext, hlead, htrail⟩ := exists_eq_append_strip defaultSeps text
  have hstart : kUserNameStartTag ∉ lead := fun h => absurd (hlead _ h) (by decide)
  have hend : kUserNameEndTag ∉ trail := fun h => absurd (htrail _ h) (by decide)
  conv_rhs => rw [htext]
  rw [getUser_append hstart, getUser_append_right hend]

theorem tagLength_strip (type : C2HMessageType) (text : Bytes) :
    tagLength type (strip defaultSeps text) = tagLength type text := by
  rw [tagLength, tagLength, getUser_strip]

/-! ### What the decoder accepts -/

/-- A frame that consists of a command and a tag with no space between them. -/
def BareTag (text : Bytes) : Prop :=
  ∃ type : C2HMessageType, ∃ command user, (type = .msg ∨ type = .log) ∧
    type.commandPrefix = some command ∧ text = command ++ userTag user ∧ 0 < user.length ∧
    user.length ≤ kMaxNicknameSize ∧ kUserNameEndTag ∉ user

/-- The first pair of brackets of a text holds as many bytes as the field of the user
has, which leaves no room for the terminator. -/
def FullBrackets (text : Bytes) : Prop :=
  ∃ before user after,
    text = before ++ kUserNameStartTag :: (user ++ kUserNameEndTag :: after) ∧
    kUserNameStartTag ∉ before ∧ kUserNameEndTag ∉ user ∧ user.length = kMaxNicknameSize

/-- A frame with such a text. -/
def FullTag (text : Bytes) : Prop :=
  ∃ type : C2HMessageType, ∃ command rest, (type = .msg ∨ type = .log) ∧
    type.commandPrefix = some command ∧ text = command ++ rest ∧ FullBrackets rest

theorem fullBrackets_iff {type : C2HMessageType} (htag : type = .msg ∨ type = .log)
    (text : Bytes) :
    FullBrackets text ↔ ∃ user, Message.getUser text type kMaxNicknameSize = some user ∧
      user.length = kMaxNicknameSize := by
  constructor
  · rintro ⟨before, user, after, rfl, hbefore, hend, hlen⟩
    refine ⟨user, getUser_tag htag hbefore hend ?_ hlen.le, hlen⟩
    rw [hlen]
    decide
  · rintro ⟨user, huser, hlen⟩
    obtain ⟨-, -, -, before, after, htext, hbefore, hend⟩ := getUser_eq_some huser
    exact ⟨before, user, after, htext, hbefore, hend, hlen⟩

/-- A frame with more bytes behind its command, the tag aside, than the field of the
content has.  Blanks count, except for a command without its optional content. -/
def Overlong (text : Bytes) : Prop :=
  ∃ type : C2HMessageType, ∃ command rest, type.commandPrefix = some command ∧
    text = command ++ rest ∧ kBufferSize + tagLength type rest < rest.length ∧
    ¬ ((type = .ok ∨ type = .quit) ∧ strip defaultSeps rest = [])

theorem not_overlong {text : Bytes} (h : text.length ≤ kBufferSize) : ¬ Overlong text := by
  rintro ⟨type, command, rest, -, rfl, hlen, -⟩
  rw [List.length_append] at h
  omega

/-- A frame that is decoded without a fault. -/
def Decodable (text : Bytes) : Prop := ¬ BareTag text ∧ ¬ FullTag text ∧ ¬ Overlong text

section Accepted

variable {type : C2HMessageType} {data : CStr} {command rest : Bytes}

theorem bareTag_iff (h : Splits data type command rest) :
    BareTag data.bytes ↔ rest.length < tagLength type rest := by
  constructor
  · rintro ⟨type', command', user, htag, hcommand', htext, hpos, hle, hend⟩
    obtain ⟨rfl, rfl, rfl⟩ := h.unique hcommand' htext (by simp [userTag])
    have huser := getUser_userTag htag hend hpos hle []
    rw [List.append_nil] at huser
    rw [tagLength_some huser, length_userTag]
    omega
  · intro hlt
    cases huser : Message.getUser rest type kMaxNicknameSize with
    | none => rw [tagLength_none huser] at hlt; omega
    | some user =>
      rw [tagLength_some huser] at hlt
      obtain ⟨htag, hpos, hle, before, after, hrest, -, hend⟩ := getUser_eq_some huser
      -- the tag has `user.length + 2` bytes, so there is nothing besides it
      have hnil : before = [] ∧ after = [] := by
        rw [hrest, List.length_append, List.length_cons, List.length_append,
          List.length_cons] at hlt
        simp only [← List.length_eq_zero_iff]
        omega
      refine ⟨type, command, user, htag, h.command, ?_, hpos, hle, hend⟩
      rw [h.parts, hrest, hnil.1, hnil.2]
      rfl

theorem fullTag_iff (h : Splits data type command rest) :
    FullTag data.bytes ↔ ∃ user, Message.getUser rest type kMaxNicknameSize = some user ∧
      user.length = kMaxNicknameSize := by
  constructor
  · rintro ⟨type', command', rest', htag, hcommand', htext, hfull⟩
    have hrest' : rest' ≠ [] := by
      rintro rfl
      obtain ⟨before, user, after, hnil, -⟩ := hfull
      simp at hnil
    obtain ⟨rfl, rfl, rfl⟩ := h.unique hcommand' htext hrest'
    exact (fullBrackets_iff htag rest').mp hfull
  · rintro ⟨user, huser, hlen⟩
    have htag := (getUser_eq_some huser).1
    exact ⟨type, command, rest, htag, h.command, h.parts,
      (fullBrackets_iff htag rest).mpr ⟨user, huser, hlen⟩⟩

theorem overlong_iff (h : Splits data type command rest) :
    Overlong data.bytes ↔ kBufferSize + tagLength type rest < rest.length ∧
      ¬ ((type = .ok ∨ type = .quit) ∧ strip defaultSeps rest = []) := by
  constructor
  · rintro ⟨type', command', rest', hcommand', htext, hlen, hbare⟩
    obtain ⟨rfl, rfl, rfl⟩ := h.unique hcommand' htext
      (fun h => by simp [h] at hlen)
    exact ⟨hlen, hbare⟩
  · rintro ⟨hlen, hbare⟩
    exact ⟨type, command, rest, h.command, h.parts, hlen, hbare⟩

/-- **The decoder reads every recognised frame** but a bare tag, for which it computes
a negative length, and those that do not fit the fields of the message. -/
theorem exists_parse_iff (h : Splits data type command rest) :
    (∃ m, C2HMessage.parse data = .ok (some m)) ↔ Decodable data.bytes := by
  obtain ⟨tail, htrim, -⟩ := trim_block defaultSeps h.nulFree.2 []
  have hparse := parse_eq h htrim (nulFree_strip h.nulFree.2 defaultSeps)
  rw [getUser_strip, tagLength_strip] at hparse
  rw [Decodable, bareTag_iff h, fullTag_iff h, overlong_iff h, hparse]
  by_cases hbare : (type = .ok ∨ type = .quit) ∧ (strip defaultSeps rest).length = 0
  · -- no copy is made
    have hnone : Message.getUser rest type kMaxNicknameSize = none :=
      getUser_of_not_tag (fun h => not_optional_of_tag h hbare.1) _ _
    rw [if_pos hbare, tagLength_none hnone, hnone]
    refine iff_of_true ⟨_, rfl⟩ ⟨Nat.not_lt_zero _, by simp, fun h => h.2 ?_⟩
    exact ⟨hbare.1, List.eq_nil_of_length_eq_zero hbare.2⟩
  · have hbare' : ¬ ((type = .ok ∨ type = .quit) ∧ strip defaultSeps rest = []) := fun h =>
      hbare ⟨h.1, by rw [h.2]; rfl⟩
    rw [if_neg hbare]
    by_cases hfull : ∃ user, Message.getUser rest type kMaxNicknameSize = some user ∧
        user.length = kMaxNicknameSize
    · obtain ⟨user, huser, hlen⟩ := hfull
      rw [huser, writeUser_full hlen.ge]
      refine iff_of_false (fun ⟨m, hm⟩ => by cases hm) fun h => h.2.1 ⟨user, rfl, hlen⟩
    · obtain ⟨u, hu⟩ : ∃ u, Message.writeUser (Message.getUser rest type kMaxNicknameSize) =
          .ok u := by
        cases huser : Message.getUser rest type kMaxNicknameSize with
        | none => exact ⟨_, rfl⟩
        | some user =>
          have hle := (getUser_eq_some huser).2.2.1
          have hne : user.length ≠ kMaxNicknameSize := fun h => hfull ⟨user, huser, h⟩
          exact ⟨_, writeUser_eq (nulFree_user h.nulFree.2 huser) (lt_of_le_of_ne hle hne)⟩
      rw [hu]
      simp only [Except.bind]
      by_cases hlt : rest.length < tagLength type rest
      · rw [if_pos hlt]
        exact iff_of_false (fun ⟨m, hm⟩ => by cases hm) fun h => h.1 hlt
      · rw [if_neg hlt]
        by_cases hlong : kBufferSize < rest.length - tagLength type rest
        · rw [if_pos hlong]
          exact iff_of_false (fun ⟨m, hm⟩ => by cases hm) fun h => h.2.2 ⟨by omega, hbare'⟩
        · rw [if_neg hlong]
          exact iff_of_true ⟨_, rfl⟩ ⟨hlt, hfull, fun h => by omega⟩

end Accepted

/-! ### Encoding, then decoding -/

/-- What `C2HMessage_create` makes of a buffer. -/
theorem ofBuffer_eq (type : C2HMessageType) (buffer : CStr) :
    C2HMessage.ofBuffer type buffer =
      (Message.writeUser (Message.getUser buffer.bytes type kMaxNicknameSize)).map fun user =>
        ⟨type, CStr.ofBlock (buffer.bytes.drop (tagLength type buffer.bytes)), user⟩ := by
  have hfound : (if type = .msg ∨ type = .log then
      Message.getUser buffer.bytes type kMaxNicknameSize else none) =
        Message.getUser buffer.bytes type kMaxNicknameSize := by
    split
    · rfl
    · next htag => exact (getUser_of_not_tag htag _ _).symm
  rw [C2HMessage.ofBuffer, hfound, ← tagSkip_eq buffer.nulFree, Message.writeUser]
  split <;> rfl

theorem type_of_create {type : C2HMessageType} {fmt : Bytes} {args : List CStr} {m : C2HMessage}
    (hm : C2HMessage.create type fmt args = .ok m) : m.type = type := by
  obtain ⟨buffer, -, hm⟩ := bind_eq_ok.mp hm
  obtain ⟨user, -, rfl⟩ := map_eq_ok.mp hm
  rfl

/-- Without a user the whole text is the content. -/
theorem ofBuffer_untagged {type : C2HMessageType} {buffer : CStr}
    (h : Message.getUser buffer.bytes type kMaxNicknameSize = none) :
    C2HMessage.ofBuffer type buffer = .ok ⟨type, buffer, CStr.empty⟩ := by
  rw [ofBuffer_eq, h, tagLength_none h, List.drop_zero, CStr.ofBlock_bytes]
  rfl

/-- With a user the content starts behind the length of the tag, wherever that was. -/
theorem ofBuffer_of_user {type : C2HMessageType} {buffer : CStr} {user : Bytes}
    (h : Message.getUser buffer.bytes type kMaxNicknameSize = some user)
    (hlt : user.length < kMaxNicknameSize) :
    C2HMessage.ofBuffer type buffer = .ok ⟨type, CStr.ofBlock (buffer.bytes.drop (user.length + 3)),
      ⟨user, nulFree_user buffer.nulFree h⟩⟩ := by
  rw [ofBuffer_eq, h, tagLength_some h, writeUser_eq (nulFree_user buffer.nulFree h) hlt]
  rfl

/-- A message was created from a user that fits its field. -/
theorem user_fits_of_ofBuffer {type : C2HMessageType} {buffer : CStr} {m : C2HMessage}
    (hm : C2HMessage.ofBuffer type buffer = .ok m) {user : Bytes}
    (h : Message.getUser buffer.bytes type kMaxNicknameSize = some user) :
    user.length < kMaxNicknameSize := by
  by_contra hle
  rw [ofBuffer_eq, h, writeUser_full (not_lt.mp hle)] at hm
  cases hm

/-- Reading a single frame from the front of a new buffer. -/
theorem get_announced {out : CStr} (hhead : out.bytes.head? = some slash)
    (hfit : out.bytes.length < kMessageBufferSize) :
    ∃ b, C2HMessage.get (MessageBuffer.zeroed.write 0 (announced out)) =
      (C2HMessage.parse out).map fun m => (m, b) := by
  have hview : (MessageBuffer.zeroed.write 0 (announced out)).view = [] ++ (out.bytes ++ 0 ::
      List.replicate (kMessageBufferSize - 0 - (announced out).length) 0) := by
    show (MessageBuffer.zeroed.write 0 (announced out)).data.drop 0 = _
    rw [MessageBuffer.drop_data_write rfl (by simpa [announced] using Nat.succ_le_of_lt hfit)]
    simp [announced]
  obtain ⟨b, hget, -⟩ := get_frame hview (by simp) hhead
  refine ⟨b, ?_⟩
  simp only [C2HMessage.get, C2HMessage.getFrame, hget, Except.bind]
  cases C2HMessage.parse out with
  | error e => rfl
  | ok m => cases m <;> rfl

/-- A line without a user is read back with its text stripped: the decoder finds no
user in it either. -/
theorem parse_line_of_no_user {type : C2HMessageType} {command : Bytes}
    (hcommand : type.commandPrefix = some command) {buffer out : CStr}
    (hnone : Message.getUser buffer.bytes type kMaxNicknameSize = none)
    (hne : type ≠ .ok → type ≠ .quit → buffer ≠ CStr.empty)
    (hout : out.bytes = command ++
      if buffer.bytes.length > 0 then 32 :: buffer.bytes else [])
    (hfit : out.bytes.length ≤ kBufferSize) :
    ∃ m, C2HMessage.parse out = .ok (some m) ∧ m.type = type ∧ m.user = CStr.empty ∧
      m.content.bytes = strip defaultSeps buffer.bytes := by
  set rest : Bytes := if buffer.bytes.length > 0 then 32 :: buffer.bytes else [] with hrest
  have hstrip : strip defaultSeps rest = strip defaultSeps buffer.bytes := by
    rw [hrest]
    split
    · exact strip_space _
    · next h => rw [List.eq_nil_of_length_eq_zero (by omega : buffer.bytes.length = 0)]
  have hsplits : Splits out type command rest := by
    refine .of_command hcommand hout fun hnil => ?_
    by_contra hopt
    rw [not_or] at hopt
    have hbuffer : buffer.bytes.length = 0 := by
      by_contra hpos
      rw [hrest, if_pos (by omega)] at hnil
      cases hnil
    exact hne hopt.1 hopt.2 (CStr.ext (List.eq_nil_of_length_eq_zero hbuffer))
  rw [← hstrip]
  refine parse_untagged hsplits ?_ ?_
  · rw [hstrip, getUser_strip]
    exact hnone
  · rw [hout, List.length_append] at hfit
    omega

/-- A line with a user is read back with the user, and with the content trimmed on
the right. -/
theorem parse_line_of_user {m : C2HMessage} (htag : m.type = .msg ∨ m.type = .log) {command : Bytes}
    (hcommand : m.type.commandPrefix = some command)
    (hend : kUserNameEndTag ∉ m.user.bytes) (hpos : 0 < m.user.bytes.length)
    (hlt : m.user.bytes.length < kMaxNicknameSize) {out : CStr}
    (hout : out.bytes = command ++ if (body m).length > 0 then 32 :: body m else [])
    (hfit : out.bytes.length ≤ kBufferSize) :
    ∃ m', C2HMessage.parse out = .ok (some m') ∧ m'.type = m.type ∧ m'.user.bytes = m.user.bytes ∧
      m'.content.bytes = m.content.bytes.rdropWhile (· ∈ defaultSeps) := by
  have hbody : body m = userTag m.user.bytes ++ 32 :: m.content.bytes := by
    rw [body, if_pos hpos, userTag]
    simp
  have hrest : out.bytes = command ++ (32 :: userTag m.user.bytes ++ 32 :: m.content.bytes) := by
    rw [hout, hbody, if_pos (by rw [List.length_append, List.length_cons]; omega)]
    rfl
  refine parse_tagged htag (.of_command hcommand hrest fun hnil => ?_) hend hpos hlt ?_
  · cases hnil
  · simp only [hrest, List.length_append, List.length_cons] at hfit
    omega

/-- **The decoder undoes the encoder.**  Every message the programs build from a
text and send is read back with its type and user, and with its content trimmed:
on the right, and on the left too when there is no user. -/
theorem get_format_create {T : C2HMessageType} (hT : T ∈ wireTypes) (s : CStr) {m : C2HMessage}
    (hm : C2HMessage.create T (ascii "%s") [s] = .ok m)
    (huser : m.user.bytes.length < kMaxNicknameSize)
    (hne : T ≠ .ok → T ≠ .quit → m.user ≠ CStr.empty ∨ m.content ≠ CStr.empty)
    (hfit : (fullText m).length ≤ 1535) (dest : CStr) :
    ∃ out, C2HMessage.format m dest kBufferSize = .ok out ∧ out.bytes = fullText m ∧
      (announced out).count 0 = 1 ∧
      ∃ m' b, C2HMessage.get (MessageBuffer.zeroed.write 0 (announced out)) = .ok (some m', b) ∧
        m'.type = T ∧ m'.user = m.user ∧
        m'.content.bytes =
          if m.user = CStr.empty then strip defaultSeps m.content.bytes
          else m.content.bytes.rdropWhile (· ∈ defaultSeps) := by
  obtain ⟨command, hcommand⟩ := exists_commandPrefix hT
  have htype : m.type = T := type_of_create hm
  obtain ⟨buffer, -, hm⟩ := bind_eq_ok.mp hm
  obtain ⟨out, hout, hbytes⟩ := format_eq_take (htype.symm ▸ hcommand) dest kBufferSize
  rw [List.take_of_length_le (show _ ≤ kBufferSize - 1 from hfit)] at hbytes
  have hfull : out.bytes = command ++
      (if (body m).length > 0 then 32 :: body m else []) := by
    rw [hbytes, fullText, htype, hcommand, Option.getD_some, commandText]
  have hhead : out.bytes.head? = some slash := by
    rw [hfull, List.head?_append, (commandPrefix_facts hcommand).2.1]
    rfl
  have hcount : (announced out).count 0 = 1 := by
    rw [announced, List.count_append, List.count_eq_zero_of_not_mem out.nulFree]
    rfl
  have hlen : out.bytes.length ≤ kBufferSize := by
    rw [hbytes]
    exact le_trans hfit (by decide)
  obtain ⟨b, hget⟩ := get_announced hhead (lt_of_le_of_lt hlen (by decide))
  refine ⟨out, hout, hbytes, hcount, ?_⟩
  cases hu : Message.getUser buffer.bytes T kMaxNicknameSize with
  | none =>
    rw [ofBuffer_untagged hu] at hm
    cases hm
    have hbuffer : T ≠ .ok → T ≠ .quit → buffer ≠ CStr.empty := by
      intro hok hquit
      exact (hne hok hquit).resolve_left fun h => h rfl
    obtain ⟨m', hparse, hmtype, hmuser, hmcontent⟩ :=
      parse_line_of_no_user hcommand hu hbuffer hfull hlen
    refine ⟨m', b, ?_, hmtype, hmuser, ?_⟩
    · rw [hget, hparse]
      rfl
    · rw [hmcontent, if_pos rfl]
  | some user =>
    obtain ⟨htag, hpos, -, -, -, -, -, hend⟩ := getUser_eq_some hu
    rw [ofBuffer_of_user hu (user_fits_of_ofBuffer hm hu)] at hm
    cases hm
    obtain ⟨m', hparse, hmtype, hmuser, hmcontent⟩ :=
      parse_line_of_user htag hcommand hend hpos huser hfull hlen
    refine ⟨m', b, ?_, hmtype, CStr.ext hmuser, ?_⟩
    · rw [hget, hparse]
      rfl
    · rw [hmcontent, if_neg]
      intro hempty
      have hnil : user = [] := congrArg CStr.bytes hempty
      rw [hnil] at hpos
      cases hpos

/-- The message built from `[Joe] hi ` arrives with its user. -/
theorem get_format_create_joe :
    ∃ out, C2HMessage.format ⟨.msg, str "hi ", str "Joe"⟩
        CStr.empty kBufferSize = .ok out ∧ out.bytes = ascii "/msg [Joe] hi " ∧
      ∃ m b, C2HMessage.get (MessageBuffer.zeroed.write 0 (announced out)) = .ok (some m, b) ∧
        m.type = .msg ∧ m.user = str "Joe" ∧ m.content.bytes = ascii "hi" := by
  obtain ⟨out, hout, hbytes, -, m, b, hget, htype, huser, hcontent⟩ :=
    get_format_create (T := .msg) (by decide) (str "[Joe] hi ") rfl (by decide)
      (by decide) (by decide) CStr.empty
  exact ⟨out, hout, hbytes, m, b, hget, htype, huser, hcontent⟩

end C2Hat
