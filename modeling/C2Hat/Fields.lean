import C2Hat.Codec
import C2Hat.Frames

/-!
# The fields of a decoded message

`C2HMessage_get` fills the fields of a new message from a frame that a remote peer
chose.  The length of the content is the difference of two pointers, one of them moved
by the length of a tag that may stand anywhere; the size of the content is bounded by
that of the receive buffer and not by that of its field; and the user may be as long as
its field, which is one byte too long.  This module says for which frames each of the
three goes wrong.

## Main results

* `lengthNonneg_iff` — **the length of the content is negative exactly for bare tags.**
* `contentFits_iff` — **the content fits its field**, with its terminator, **exactly when
  the frame is short enough.**
* `userFits_iff` — **the user fits its field exactly when it is not of its size.**
-/

namespace C2Hat

open Clib

/-- What holds of the copies to a new message, when they are made. -/
def Decoding.onCopy (P : Option Bytes → Bytes → ℕ → ℕ → Prop) : Decoding → Prop
  | .copy _ found block cursor stop => P found block cursor stop
  | _ => True

/-- What the decoder does with a recognised frame. -/
theorem onCopy_decode {type : C2HMessageType} {data : CStr} {command rest tail : Bytes}
    (h : Splits data type command rest)
    (htrim : trim (rest ++ [0]) defaultSeps = strip defaultSeps rest ++ 0 :: tail)
    (P : Option Bytes → Bytes → ℕ → ℕ → Prop) :
    (C2HMessage.decode data).onCopy P ↔
      (¬ ((type = .ok ∨ type = .quit) ∧ strip defaultSeps rest = []) →
        P (Message.getUser rest type kMaxNicknameSize)
          (command ++ (strip defaultSeps rest ++ 0 :: tail))
          (command.length + tagLength type rest) (command.length + rest.length)) := by
  rw [decode_eq h htrim (nulFree_strip h.nulFree.2 defaultSeps), getUser_strip, tagLength_strip]
  simp only [List.length_eq_zero_iff]
  by_cases hbare : (type = .ok ∨ type = .quit) ∧ strip defaultSeps rest = []
  · rw [if_pos hbare]
    exact iff_of_true trivial fun hnot => absurd hbare hnot
  · rw [if_neg hbare]
    exact ⟨fun hP _ => hP, fun hP => hP hbare⟩

/-- Nothing is copied of a frame that is not recognised. -/
theorem onCopy_of_unknown {data : CStr} (h : (Message.getType data.bytes).1 = .null)
    (P : Option Bytes → Bytes → ℕ → ℕ → Prop) : (C2HMessage.decode data).onCopy P := by
  simp only [C2HMessage.decode, h, if_true]
  trivial

/-- Frames that start with a command and have something behind it are recognised. -/
theorem recognised_of_command {type : C2HMessageType} {data : CStr} {command rest : Bytes}
    (hcommand : type.commandPrefix = some command) (hdata : data.bytes = command ++ rest)
    (hrest : rest ≠ []) : (Message.getType data.bytes).1 ≠ .null := by
  have h : Splits data type command rest := .of_command hcommand hdata fun hnil =>
    absurd hnil hrest
  rw [h.typed]
  exact h.ne_null

/-! ### The length of the content -/

/-- The cursor has not passed the end pointer when the content is copied. -/
def LengthNonneg (data : CStr) : Prop :=
  (C2HMessage.decode data).onCopy fun _ _ cursor stop => (0 : ℤ) ≤ stop - cursor

/-- **The length of the content is negative exactly for bare tags.** -/
theorem lengthNonneg_iff (data : CStr) : LengthNonneg data ↔ ¬ BareTag data.bytes := by
  by_cases hnull : (Message.getType data.bytes).1 = .null
  · refine iff_of_true (onCopy_of_unknown hnull _) ?_
    rintro ⟨type, command, user, -, hcommand, hdata, -⟩
    exact recognised_of_command hcommand hdata (by simp [userTag]) hnull
  · obtain ⟨type, command, rest, h⟩ := exists_splits hnull
    obtain ⟨tail, htrim, -⟩ := trim_block defaultSeps h.nulFree.2 []
    rw [LengthNonneg, onCopy_decode h htrim, bareTag_iff h]
    constructor
    · intro hcopy hlt
      by_cases hbare : (type = .ok ∨ type = .quit) ∧ strip defaultSeps rest = []
      · -- only chat and log messages have a tag
        have hnone : Message.getUser rest type kMaxNicknameSize = none :=
          getUser_of_not_tag (fun htag => not_optional_of_tag htag hbare.1) _ _
        rw [tagLength_none hnone] at hlt
        omega
      · have := hcopy hbare
        omega
    · intro hnot _
      omega

/-- A tag directly behind the command is skipped with one byte more than there is. -/
theorem not_lengthNonneg_joe :
    (Message.get (MessageBuffer.zeroed.write 0 (ascii "/msg[Joe]"))).map Prod.fst =
      .ok (some (str "/msg[Joe]")) ∧
    C2HMessage.decode (str "/msg[Joe]") =
      .copy .msg (some (ascii "Joe")) (ascii "/msg[Joe]" ++ [0]) 10 9 ∧
    ¬ LengthNonneg (str "/msg[Joe]") := by
  have hdecode : C2HMessage.decode (str "/msg[Joe]") =
      .copy .msg (some (ascii "Joe")) (ascii "/msg[Joe]" ++ [0]) 10 9 := by decide +kernel
  refine ⟨by decide +kernel, hdecode, fun h => ?_⟩
  rw [LengthNonneg, hdecode] at h
  change (0 : ℤ) ≤ ((9 : ℕ) : ℤ) - ((10 : ℕ) : ℤ) at h
  omega

/-! ### The size of the content -/

/-- The field of the content when some bytes have been copied to it. -/
def contentField (copied : Bytes) : Bytes :=
  copied ++ List.replicate (kBufferSize - copied.length) 0

/-- No more bytes are copied than the field of the content has, and there is a
terminator among those of the field.  (A copy of negative length is never made.) -/
def ContentFits (data : CStr) : Prop :=
  (C2HMessage.decode data).onCopy fun _ block cursor stop => cursor ≤ stop →
    stop - cursor ≤ kBufferSize ∧ 0 ∈ contentField ((block.drop cursor).take (stop - cursor))

/-- A frame with exactly as many bytes behind its command, the tag aside, as the field
of the content has, and without blanks around them that would become terminators: none
at the end, and none at the beginning unless all that follows is the tag. -/
def Filling (text : Bytes) : Prop :=
  ∃ type : C2HMessageType, ∃ command rest, type.commandPrefix = some command ∧
    text = command ++ rest ∧ rest.length = kBufferSize + tagLength type rest ∧
    rest.rdropWhile (· ∈ defaultSeps) = rest ∧
    (strip defaultSeps rest = rest ∨ (strip defaultSeps rest).length < tagLength type rest)

theorem filling_iff {type : C2HMessageType} {data : CStr} {command rest : Bytes}
    (h : Splits data type command rest) :
    Filling data.bytes ↔ rest.length = kBufferSize + tagLength type rest ∧
      rest.rdropWhile (· ∈ defaultSeps) = rest ∧
      (strip defaultSeps rest = rest ∨
        (strip defaultSeps rest).length < tagLength type rest) := by
  constructor
  · rintro ⟨type', command', rest', hcommand', hdata', hlen, hblank⟩
    have hrest' : rest' ≠ [] := by
      rintro rfl
      rw [List.length_nil, kBufferSize] at hlen
      omega
    obtain ⟨rfl, rfl, rfl⟩ := h.unique hcommand' hdata' hrest'
    exact ⟨hlen, hblank⟩
  · rintro ⟨hlen, hblank⟩
    exact ⟨type, command, rest, h.command, h.parts, hlen, hblank⟩

/-- Stripping shortens every text it changes. -/
theorem strip_eq_self_iff (seps s : Bytes) : strip seps s = s ↔ s.length ≤ (strip seps s).length := by
  refine ⟨fun h => h.symm ▸ le_rfl, fun hle => ?_⟩
  obtain ⟨lead, trail, hs, -, -⟩ := exists_eq_append_strip seps s
  have hlen := congrArg List.length hs
  rw [List.length_append, List.length_append] at hlen
  have hlead : lead = [] := List.eq_nil_of_length_eq_zero (by omega)
  have htrail : trail = [] := List.eq_nil_of_length_eq_zero (by omega)
  rw [hlead, htrail, List.nil_append, List.append_nil] at hs
  exact hs.symm

/-- There is no tag in blanks. -/
theorem tagLength_of_blank {rest : Bytes} (hnil : strip defaultSeps rest = [])
    (type : C2HMessageType) : tagLength type rest = 0 := by
  rw [← tagLength_strip, hnil]
  cases type <;> rfl

/-- The tag is part of the stripped text; only the space behind it may be missing. -/
theorem tagLength_le (type : C2HMessageType) (rest : Bytes) :
    tagLength type rest ≤ (strip defaultSeps rest).length + 1 := by
  rw [← tagLength_strip]
  cases huser : Message.getUser (strip defaultSeps rest) type kMaxNicknameSize with
  | none => rw [tagLength_none huser]; omega
  | some user =>
    obtain ⟨-, -, -, before, after, htext, -, -⟩ := getUser_eq_some huser
    rw [tagLength_some huser, htext, List.length_append, List.length_cons, List.length_append,
      List.length_cons]
    omega

/-- The terminator of the stripped text is among the bytes behind the tag, when it is
not the tag alone. -/
theorem nul_mem_copied {s text tail : Bytes} {n k : ℕ} (htext : (0 : UInt8) ∉ text)
    (hn : n ≤ text.length) (hs : text.length ≤ s.length) (hk : k = s.length - n) :
    0 ∈ ((text ++ 0 :: tail).drop n).take k ↔ text.length < s.length := by
  rw [List.drop_append, Nat.sub_eq_zero_of_le hn, List.drop_zero, List.take_append,
    List.length_drop, List.take_of_length_le (by rw [List.length_drop]; omega), List.mem_append]
  have hfront : (0 : UInt8) ∉ text.drop n := fun h => htext (List.mem_of_mem_drop h)
  constructor
  · rintro (h | h)
    · exact absurd h hfront
    · by_contra hle
      rw [show k - (text.length - n) = 0 by omega] at h
      cases h
  · intro hlt
    obtain ⟨j, hj⟩ := Nat.exists_eq_succ_of_ne_zero (show k - (text.length - n) ≠ 0 by omega)
    rw [hj, List.take_succ_cons]
    exact Or.inr (List.mem_cons_self ..)

/-- When the stripped text is the tag alone, what is copied was behind its terminator:
the end of the text before it was moved, and the terminators that replaced blanks. -/
theorem nul_mem_copied_behind {rest s : Bytes} {n : ℕ} (hrest : (0 : UInt8) ∉ rest)
    (hs : s <+: rest) (hn : n < rest.length) :
    0 ∈ ((s ++ List.replicate (rest.length - s.length) 0 ++ [0]).drop n).take (rest.length - n) ↔
      s ≠ rest := by
  have hlen : (s ++ List.replicate (rest.length - s.length) (0 : UInt8)).length = rest.length := by
    have := hs.length_le
    rw [List.length_append, List.length_replicate]
    omega
  rw [List.drop_append_of_le_length (by omega), List.take_left' (by rw [List.length_drop, hlen])]
  constructor
  · rintro h rfl
    rw [Nat.sub_self, List.replicate_zero, List.append_nil] at h
    exact hrest (List.mem_of_mem_drop h)
  · intro hne
    have hlt : s.length < rest.length :=
      lt_of_le_of_ne hs.length_le fun h => hne (hs.eq_of_length h)
    -- the last of the blanks
    refine List.mem_drop_iff_getElem.mpr ⟨rest.length - 1 - n, by omega, ?_⟩
    rw [List.getElem_append_right (by omega), List.getElem_replicate]

theorem nul_mem_contentField {copied : Bytes} (hle : copied.length ≤ kBufferSize) :
    0 ∈ contentField copied ↔ copied.length = kBufferSize → 0 ∈ copied := by
  rw [contentField, List.mem_append, List.mem_replicate]
  constructor
  · rintro (h | h) hlen
    · exact h
    · omega
  · intro h
    by_cases hlen : copied.length = kBufferSize
    · exact Or.inl (h hlen)
    · exact Or.inr ⟨by omega, rfl⟩

section Content

variable {type : C2HMessageType} {data : CStr} {command rest tail : Bytes}

/-- Whether a terminator is copied along with the content. -/
theorem nul_mem_content (h : Splits data type command rest)
    (htail : strip defaultSeps rest ≠ [] → tail = (rest.rdropWhile (· ∈ defaultSeps) ++
      List.replicate (rest.length - (rest.rdropWhile (· ∈ defaultSeps)).length) 0 ++ [0]).drop
        ((strip defaultSeps rest).length + 1))
    (hlt : tagLength type rest < rest.length) :
    0 ∈ ((strip defaultSeps rest ++ 0 :: tail).drop (tagLength type rest)).take
        (rest.length - tagLength type rest) ↔
      ¬ (rest.rdropWhile (· ∈ defaultSeps) = rest ∧
        (strip defaultSeps rest = rest ∨
          (strip defaultSeps rest).length < tagLength type rest)) := by
  have hle := tagLength_le type rest
  have hstrip := length_strip_le defaultSeps rest
  by_cases hn : tagLength type rest ≤ (strip defaultSeps rest).length
  · rw [nul_mem_copied (nulFree_strip h.nulFree.2 defaultSeps) hn hstrip rfl]
    constructor
    · rintro hshort ⟨-, hself | hbare⟩
      · rw [hself] at hshort
        omega
      · omega
    · intro hnot
      by_contra hge
      have hself := (strip_eq_self_iff defaultSeps rest).mpr (by omega)
      refine hnot ⟨?_, Or.inl hself⟩
      -- a text with nothing to strip has no blank at its end
      refine (List.rdropWhile_prefix _ rest).eq_of_length (le_antisymm ?_ ?_)
      · exact (List.rdropWhile_prefix _ rest).length_le
      · rw [← congrArg List.length hself]
        exact (List.dropWhile_suffix _).length_le
  · have hne : strip defaultSeps rest ≠ [] := by
      intro hnil
      rw [tagLength_of_blank hnil] at hn
      exact hn (Nat.zero_le _)
    have hsucc : tagLength type rest = (strip defaultSeps rest).length + 1 := by omega
    have hdrop : (strip defaultSeps rest ++ 0 :: tail).drop (tagLength type rest) = tail := by
      rw [hsucc, ← List.drop_drop, List.drop_left]
      rfl
    rw [hdrop, htail hne, ← hsucc,
      nul_mem_copied_behind h.nulFree.2 (List.rdropWhile_prefix _ rest) hlt]
    constructor
    · rintro hne' ⟨hself, -⟩
      exact hne' hself
    · intro hnot hself
      exact hnot ⟨hself, Or.inr (by omega)⟩

end Content

/-- The content fits when there are no more bytes behind the command, the tag aside, than
the field has, and if there are as many, blanks that become terminators are among them. -/
theorem contentFits_frame_iff (data : CStr) :
    ContentFits data ↔ ¬ Overlong data.bytes ∧ ¬ Filling data.bytes := by
  by_cases hnull : (Message.getType data.bytes).1 = .null
  · refine iff_of_true (onCopy_of_unknown hnull _) ⟨?_, ?_⟩
    · rintro ⟨type, command, rest, hcommand, hdata, hlen, -⟩
      exact recognised_of_command hcommand hdata (fun hnil => by simp [hnil] at hlen) hnull
    · rintro ⟨type, command, rest, hcommand, hdata, hlen, -⟩
      refine recognised_of_command hcommand hdata ?_ hnull
      rintro rfl
      rw [List.length_nil, kBufferSize] at hlen
      omega
  · obtain ⟨type, command, rest, h⟩ := exists_splits hnull
    obtain ⟨tail, htrim, hlen, htail⟩ := trim_block defaultSeps h.nulFree.2 []
    have hdrop : (command ++ (strip defaultSeps rest ++ 0 :: tail)).drop
        (command.length + tagLength type rest) =
          (strip defaultSeps rest ++ 0 :: tail).drop (tagLength type rest) := by
      rw [← List.drop_drop, List.drop_left]
    rw [ContentFits, onCopy_decode h htrim, overlong_iff h, filling_iff h, hdrop,
      Nat.add_sub_add_left, Nat.add_le_add_iff_left]
    set copied := ((strip defaultSeps rest ++ 0 :: tail).drop (tagLength type rest)).take
      (rest.length - tagLength type rest) with hcopied
    have hsize : copied.length = rest.length - tagLength type rest := by
      rw [List.length_nil, Nat.add_zero] at hlen
      rw [hcopied, List.length_take, List.length_drop, List.length_append, List.length_cons]
      omega
    have hnul := nul_mem_content h htail
    rw [← hcopied] at hnul
    have hpos : 0 < kBufferSize := by decide
    constructor
    · intro hfits
      refine ⟨fun ⟨hlong, hbare⟩ => ?_, fun ⟨hfull, hblank⟩ => ?_⟩
      · have := (hfits hbare (by omega)).1
        omega
      · -- a text that fills the field is not blank
        have hbare : ¬ ((type = .ok ∨ type = .quit) ∧ strip defaultSeps rest = []) := by
          rintro ⟨-, hnil⟩
          rcases hblank.2 with hself | hshort
          · rw [← hself, hnil, List.length_nil] at hfull
            omega
          · rw [tagLength_of_blank hnil] at hshort
            omega
        obtain ⟨hle, hfield⟩ := hfits hbare (by omega)
        have hmem := (nul_mem_contentField (hsize ▸ hle)).mp hfield (by omega)
        exact (hnul (by omega)).mp hmem hblank
    · rintro ⟨hshort, hfill⟩ hbare hle
      have hroom : rest.length - tagLength type rest ≤ kBufferSize := by
        by_contra hlong
        exact hshort ⟨by omega, hbare⟩
      refine ⟨hroom, (nul_mem_contentField (hsize ▸ hroom)).mpr fun hfull => ?_⟩
      exact (hnul (by omega)).mpr fun hblank => hfill ⟨by omega, hblank⟩

/-- **The content fits its field exactly when the frame is short enough**, for the frame
that is taken out of any buffer. -/
theorem contentFits_iff (b : MessageBuffer) :
    (∀ data b', Message.get b = .ok (some data, b') → ContentFits data) ↔
      ∀ data ∈ (framesOf b.view).head?, ¬ Overlong data.bytes ∧ ¬ Filling data.bytes := by
  constructor
  · intro hfits data hdata
    obtain ⟨b', hget⟩ := (exists_get_iff b data).mpr hdata
    exact (contentFits_frame_iff data).mp (hfits data b' hget)
  · intro hshort data b' hget
    exact (contentFits_frame_iff data).mpr (hshort data ((exists_get_iff b data).mp ⟨b', hget⟩))

/-- A frame of 1544 bytes, most of them content. -/
def longFrame : CStr := CStr.ofBlock (ascii "/msg" ++ List.replicate 1540 97)

/-- The receive buffer holds such a frame with its terminator, and the decoder copies
more bytes than there is room for. -/
theorem not_contentFits_long :
    (MessageBuffer.zeroed.write 0 longFrame.bytes).data.getLast? = some 0 ∧
    (Message.get (MessageBuffer.zeroed.write 0 longFrame.bytes)).map Prod.fst =
      .ok (some longFrame) ∧
    C2HMessage.decode longFrame = .copy .msg none (longFrame.bytes ++ [0]) 4 1544 ∧
    ¬ ContentFits longFrame := by
  have hdecode : C2HMessage.decode longFrame = .copy .msg none (longFrame.bytes ++ [0]) 4 1544 := by
    decide +kernel
  refine ⟨by decide +kernel, by decide +kernel, hdecode, ?_⟩
  rw [ContentFits, hdecode]
  intro h
  exact absurd (h (by decide)).1 (by decide)

/-! ### The size of the user -/

/-- A user that was found, and its terminator, fit the field. -/
def UserFits (found : Option Bytes) : Prop := ∀ user ∈ found, user.length + 1 ≤ kMaxNicknameSize

theorem userFits_getUser_iff (text : Bytes) (type : C2HMessageType) :
    UserFits (Message.getUser text type kMaxNicknameSize) ↔
      ¬ ∃ user, Message.getUser text type kMaxNicknameSize = some user ∧
        user.length = kMaxNicknameSize := by
  constructor
  · rintro hfits ⟨user, huser, hlen⟩
    have := hfits user huser
    omega
  · intro hnot user huser
    have hle := (getUser_eq_some huser).2.2.1
    have hne : user.length ≠ kMaxNicknameSize := fun hlen => hnot ⟨user, huser, hlen⟩
    omega

/-- **The user fits its field exactly when it is not of its size**: in a text that a
message is created from, and in a frame that is decoded. -/
theorem userFits_iff (type : C2HMessageType) (buffer data : CStr) :
    (UserFits (Message.getUser buffer.bytes type kMaxNicknameSize) ↔
      ¬ ((type = .msg ∨ type = .log) ∧ FullBrackets buffer.bytes)) ∧
    ((C2HMessage.decode data).onCopy (fun found _ _ _ => UserFits found) ↔
      ¬ FullTag data.bytes) := by
  constructor
  · rw [userFits_getUser_iff, not_iff_not]
    constructor
    · rintro ⟨user, huser, hlen⟩
      have htag := (getUser_eq_some huser).1
      exact ⟨htag, (fullBrackets_iff htag _).mpr ⟨user, huser, hlen⟩⟩
    · rintro ⟨htag, hfull⟩
      exact (fullBrackets_iff htag _).mp hfull
  · by_cases hnull : (Message.getType data.bytes).1 = .null
    · refine iff_of_true (onCopy_of_unknown hnull _) ?_
      rintro ⟨type, command, rest, htag, hcommand, hdata, hfull⟩
      refine recognised_of_command hcommand hdata ?_ hnull
      rintro rfl
      obtain ⟨before, user, after, hnil, -⟩ := hfull
      simp at hnil
    · obtain ⟨type, command, rest, h⟩ := exists_splits hnull
      obtain ⟨tail, htrim, -⟩ := trim_block defaultSeps h.nulFree.2 []
      rw [onCopy_decode h htrim, userFits_getUser_iff, fullTag_iff h]
      constructor
      · rintro hfits ⟨user, huser, hlen⟩
        have htag := (getUser_eq_some huser).1
        exact hfits (fun hbare => not_optional_of_tag htag hbare.1) ⟨user, huser, hlen⟩
      · intro hnot _
        exact hnot

/-- A user of sixty bytes. -/
def longUser : Bytes := List.replicate 60 97

/-- Created from a text or decoded from a frame, its terminator is written behind the
field. -/
theorem not_userFits_sixty :
    C2HMessage.create .msg (ascii "%s") [CStr.ofBlock (userTag longUser ++ ascii " hi")] =
      .error .outOfBounds ∧
    (Message.get (MessageBuffer.zeroed.write 0 (ascii "/msg " ++ userTag longUser ++
      ascii " hi"))).map Prod.fst =
        .ok (some (CStr.ofBlock (ascii "/msg " ++ userTag longUser ++ ascii " hi"))) ∧
    C2HMessage.parse (CStr.ofBlock (ascii "/msg " ++ userTag longUser ++ ascii " hi")) =
      .error .outOfBounds ∧
    ¬ UserFits (Message.getUser (userTag longUser ++ ascii " hi") .msg kMaxNicknameSize) := by
  refine ⟨by decide +kernel, by decide +kernel, by decide +kernel, fun h => ?_⟩
  have huser : Message.getUser (userTag longUser ++ ascii " hi") .msg kMaxNicknameSize =
      some longUser := by decide +kernel
  rw [huser] at h
  exact absurd (h longUser rfl) (by decide)

end C2Hat
