import C2Hat.Codec

/-!
# The user tag and the payload

`Message_getUser` finds the first pair of brackets anywhere in a text.  Both
`C2HMessage_create` and `C2HMessage_get` then take the text to begin with that tag and one
space, and skip as many bytes.  When the brackets are elsewhere, these bytes are lost.

## Main results

* `payloadKept_iff` — **no byte of a payload is lost exactly when the tag is in front of
  it**, with a space behind it unless there is nothing else.
-/

namespace C2Hat

open Clib

/-- All of the text `p` is in the message: as its content, or as the user in brackets,
followed by nothing or by a space and the content. -/
def PayloadKept (p : Bytes) (m : C2HMessage) : Prop :=
  (m.user = CStr.empty ∧ m.content.bytes = p) ∨ p = userTag m.user.bytes ∨
    p = userTag m.user.bytes ++ 32 :: m.content.bytes

/-- When the first opening bracket of a text and the next closing one are around a user,
the former is the first byte, and a space follows on the latter, if anything does. -/
def TagInFront (p : Bytes) : Prop :=
  ∀ before user after, p = before ++ kUserNameStartTag :: (user ++ kUserNameEndTag :: after) →
    kUserNameStartTag ∉ before → kUserNameEndTag ∉ user → 0 < user.length →
    user.length ≤ kMaxNicknameSize → before = [] ∧ (after = [] ∨ after.head? = some 32)

theorem userTag_append (user after : Bytes) :
    userTag user ++ after = kUserNameStartTag :: (user ++ kUserNameEndTag :: after) := by
  simp [userTag]

/-- Where no user is found, there is no tag to be in front. -/
theorem tagInFront_of_no_user {type : C2HMessageType} (htag : type = .msg ∨ type = .log)
    {p : Bytes} (h : Message.getUser p type kMaxNicknameSize = none) : TagInFront p := by
  intro before user after hp hbefore hend hpos hle
  rw [hp, getUser_tag htag hbefore hend hpos hle] at h
  cases h

/-- The text behind a tag that is in front. -/
theorem tagInFront_iff {type : C2HMessageType} {p user : Bytes}
    (h : Message.getUser p type kMaxNicknameSize = some user) :
    TagInFront p ↔ p = userTag user ∨ ∃ content, p = userTag user ++ 32 :: content := by
  obtain ⟨htag, hpos, hle, before, after, hp, hbefore, hend⟩ := getUser_eq_some h
  constructor
  · intro hfront
    obtain ⟨rfl, hafter⟩ := hfront before user after hp hbefore hend hpos hle
    have hsplit : p = userTag user ++ after := by rw [hp, userTag_append, List.nil_append]
    rcases hafter with rfl | hafter
    · exact Or.inl (by rw [hsplit, List.append_nil])
    · obtain ⟨content, rfl⟩ := List.head?_eq_some_iff.mp hafter
      exact Or.inr ⟨content, hsplit⟩
  · intro hsplit before' user' after' hp' hbefore' hend' hpos' hle'
    obtain ⟨rest, hrest, hhead⟩ : ∃ rest, p = userTag user ++ rest ∧
        (rest = [] ∨ rest.head? = some 32) := by
      rcases hsplit with hp | ⟨content, hp⟩
      · exact ⟨[], by rw [hp, List.append_nil], Or.inl rfl⟩
      · exact ⟨32 :: content, hp, Or.inr rfl⟩
    -- the first pair of brackets is the one the user was found in
    have huser : user' = user := by
      rw [hp', getUser_tag htag hbefore' hend' hpos' hle'] at h
      exact Option.some.inj h
    subst huser
    have hnil : before' = [] := by
      cases before' with
      | nil => rfl
      | cons c before' =>
        rw [hrest, userTag_append, List.cons_append] at hp'
        exact absurd ((List.cons.inj hp').1 ▸ List.mem_cons_self ..) hbefore'
    subst hnil
    refine ⟨rfl, ?_⟩
    rw [hrest, userTag_append, List.nil_append] at hp'
    obtain rfl := (List.cons.inj (List.append_cancel_left (List.cons.inj hp').2)).2
    exact hhead

/-! ### What is made of a payload -/

/-- What a message has in common with the text it was made from. -/
structure Taken (type : C2HMessageType) (p : Bytes) (m : C2HMessage) : Prop where
  /-- Without a user, all of the text is content. -/
  untagged : Message.getUser p type kMaxNicknameSize = none →
    m.user = CStr.empty ∧ m.content.bytes = p
  /-- Otherwise the content is right when the tag is where it is expected. -/
  tagged : ∀ user, Message.getUser p type kMaxNicknameSize = some user →
    m.user.bytes = user ∧ ∀ content, p = userTag user ++ 32 :: content → m.content.bytes = content

theorem Taken.kept_iff {type : C2HMessageType} {p : Bytes} {m : C2HMessage} (h : Taken type p m) :
    PayloadKept p m ↔ (type = .msg ∨ type = .log → TagInFront p) := by
  cases huser : Message.getUser p type kMaxNicknameSize with
  | none =>
    exact iff_of_true (Or.inl (h.untagged huser)) fun htag => tagInFront_of_no_user htag huser
  | some user =>
    obtain ⟨htag, hpos, -⟩ := getUser_eq_some huser
    obtain ⟨hmuser, hmcontent⟩ := h.tagged user huser
    have hfront : (type = .msg ∨ type = .log → TagInFront p) ↔ TagInFront p :=
      ⟨fun hf => hf htag, fun hf _ => hf⟩
    rw [hfront, tagInFront_iff huser, PayloadKept, hmuser]
    constructor
    · rintro (⟨hempty, -⟩ | hp | hp)
      · rw [← hmuser, hempty] at hpos
        exact absurd hpos (lt_irrefl 0)
      · exact Or.inl hp
      · exact Or.inr ⟨_, hp⟩
    · rintro (hp | ⟨content, hp⟩)
      · exact Or.inr (Or.inl hp)
      · exact Or.inr (Or.inr (by rw [hmcontent content hp]; exact hp))

/-- What `C2HMessage_create` takes from the formatted text. -/
theorem taken_of_ofBuffer {type : C2HMessageType} {buffer : CStr} {m : C2HMessage}
    (hm : C2HMessage.ofBuffer type buffer = .ok m) : Taken type buffer.bytes m where
  untagged := by
    intro huser
    rw [ofBuffer_untagged huser] at hm
    cases hm
    exact ⟨rfl, rfl⟩
  tagged := by
    intro user huser
    rw [ofBuffer_of_user huser (user_fits_of_ofBuffer hm huser)] at hm
    cases hm
    refine ⟨rfl, fun content hcontent => ?_⟩
    have hnul := buffer.nulFree
    rw [hcontent, List.mem_append, List.mem_cons, not_or, not_or] at hnul
    show (CStr.ofBlock (buffer.bytes.drop (user.length + 3))).bytes = content
    rw [hcontent, drop_userTag]
    exact CStr.bytes_ofBlock_of_nulFree hnul.2.2

/-- A message is created unless its user is as long as the field. -/
theorem exists_ofBuffer_iff {type : C2HMessageType} (htag : type = .msg ∨ type = .log)
    (buffer : CStr) :
    (∃ m, C2HMessage.ofBuffer type buffer = .ok m) ↔ ¬ FullBrackets buffer.bytes := by
  rw [fullBrackets_iff htag]
  constructor
  · rintro ⟨m, hm⟩ ⟨user, huser, hlen⟩
    exact absurd hlen (user_fits_of_ofBuffer hm huser).ne
  · intro hfull
    cases huser : Message.getUser buffer.bytes type kMaxNicknameSize with
    | none => exact ⟨_, ofBuffer_untagged huser⟩
    | some user =>
      have hne : user.length ≠ kMaxNicknameSize := fun hlen => hfull ⟨user, huser, hlen⟩
      exact ⟨_, ofBuffer_of_user huser (lt_of_le_of_ne (getUser_eq_some huser).2.2.1 hne)⟩

/-- What `C2HMessage_get` takes from the trimmed text behind the command. -/
theorem taken_of_parse {type : C2HMessageType} {data : CStr} {command rest : Bytes}
    {m : C2HMessage} (h : Splits data type command rest)
    (hm : C2HMessage.parse data = .ok (some m)) : Taken type (strip defaultSeps rest) m := by
  have hstrip := nulFree_strip h.nulFree.2 defaultSeps
  obtain ⟨tail, htrim, -⟩ := trim_block defaultSeps h.nulFree.2 []
  have hdecodable := (exists_parse_iff h).mp ⟨m, hm⟩
  constructor
  · intro huser
    by_cases hempty : (type = .ok ∨ type = .quit) ∧ (strip defaultSeps rest).length = 0
    · rw [parse_eq h htrim hstrip, if_pos hempty] at hm
      cases hm
      exact ⟨rfl, (List.eq_nil_of_length_eq_zero hempty.2).symm⟩
    · have hfit : rest.length ≤ kBufferSize := by
        by_contra hlong
        refine hdecodable.2.2 ((overlong_iff h).mpr ⟨?_, fun hbare => hempty ?_⟩)
        · rw [← tagLength_strip, tagLength_none huser]
          omega
        · exact ⟨hbare.1, by rw [hbare.2]; rfl⟩
      obtain ⟨m', hm', -, hmuser, hmcontent⟩ := parse_untagged h huser hfit
      rw [hm, Except.ok.injEq, Option.some.injEq] at hm'
      subst hm'
      exact ⟨hmuser, hmcontent⟩
  · intro user huser
    have hlt : user.length < kMaxNicknameSize := by
      refine lt_of_le_of_ne (getUser_eq_some huser).2.2.1 fun hlen => ?_
      refine hdecodable.2.1 ((fullTag_iff h).mpr ⟨user, ?_, hlen⟩)
      rw [← getUser_strip]
      exact huser
    obtain ⟨m', -, hmuser, hmcontent, hm'⟩ := parse_of_user h htrim hstrip huser hlt
    -- the message is the one of the last branch
    rw [hm] at hm'
    split at hm'
    · cases hm'
    · split at hm'
      · cases hm'
      · rw [Except.ok.injEq, Option.some.injEq] at hm'
        subst hm'
        refine ⟨hmuser, fun content hcontent => ?_⟩
        have hnul := hstrip
        rw [hcontent, List.mem_append, List.mem_cons, not_or, not_or] at hnul
        have hlen := length_strip_le defaultSeps rest
        rw [hcontent, List.length_append, List.length_cons, length_userTag] at hlen
        rw [hmcontent, hcontent, List.append_assoc, drop_userTag]
        exact ofBlock_take hnul.2.2 tail (by omega)

/-- **No byte of a payload is lost exactly when the tag is in front of it**, with a space
behind it unless there is nothing else; provided there is a message at all. -/
theorem payloadKept_iff (type : C2HMessageType) (data buffer : CStr) :
    (∀ {command rest : Bytes}, Splits data type command rest →
      ((∃ m, C2HMessage.parse data = .ok (some m) ∧ PayloadKept (strip defaultSeps rest) m) ↔
        Decodable data.bytes ∧
          (type = .msg ∨ type = .log → TagInFront (strip defaultSeps rest)))) ∧
    ∀ {fmt : Bytes} {args : List CStr}, type = .msg ∨ type = .log →
      vsnprintf kBufferSize fmt args = .ok buffer →
        ((∃ m, C2HMessage.create type fmt args = .ok m ∧ PayloadKept buffer.bytes m) ↔
          ¬ FullBrackets buffer.bytes ∧ TagInFront buffer.bytes) := by
  constructor
  · intro command rest h
    rw [← exists_parse_iff h]
    constructor
    · rintro ⟨m, hm, hkept⟩
      exact ⟨⟨m, hm⟩, (taken_of_parse h hm).kept_iff.mp hkept⟩
    · rintro ⟨⟨m, hm⟩, hfront⟩
      exact ⟨m, hm, (taken_of_parse h hm).kept_iff.mpr hfront⟩
  · intro fmt args htag hbuffer
    have hcreate : C2HMessage.create type fmt args = C2HMessage.ofBuffer type buffer := by
      rw [C2HMessage.create, hbuffer]
      rfl
    rw [hcreate, ← exists_ofBuffer_iff htag]
    constructor
    · rintro ⟨m, hm, hkept⟩
      exact ⟨⟨m, hm⟩, (taken_of_ofBuffer hm).kept_iff.mp hkept htag⟩
    · rintro ⟨⟨m, hm⟩, hfront⟩
      exact ⟨m, hm, (taken_of_ofBuffer hm).kept_iff.mpr fun _ => hfront⟩

/-- A message as the server relays it. -/
theorem payloadKept_joe :
    (∃ m, C2HMessage.parse (str "/msg [Joe] hi") = .ok (some m) ∧
      PayloadKept (ascii "[Joe] hi") m) ∧
    ∃ m, C2HMessage.create .msg (ascii "%s") [str "[Joe] hi"] = .ok m ∧
      PayloadKept (ascii "[Joe] hi") m := by
  have hsplits : Splits (str "/msg [Joe] hi") .msg (ascii "/msg") (ascii " [Joe] hi") :=
    ⟨by decide +kernel, by decide +kernel, rfl⟩
  have huser : Message.getUser (ascii "[Joe] hi") .msg kMaxNicknameSize = some (ascii "Joe") := by
    decide +kernel
  have hfront : TagInFront (ascii "[Joe] hi") :=
    (tagInFront_iff huser).mpr (Or.inr ⟨ascii "hi", by decide +kernel⟩)
  have hdecodable : Decodable (str "/msg [Joe] hi").bytes :=
    (exists_parse_iff hsplits).mp ⟨⟨.msg, str "hi", str "Joe"⟩, by decide +kernel⟩
  have hfull : ¬ FullBrackets (str "[Joe] hi").bytes :=
    (exists_ofBuffer_iff (Or.inl rfl) _).mp ⟨⟨.msg, str "hi", str "Joe"⟩, by decide +kernel⟩
  obtain ⟨hget, hcreate⟩ := payloadKept_iff .msg (str "/msg [Joe] hi") (str "[Joe] hi")
  exact ⟨(hget hsplits).mpr ⟨hdecodable, fun _ => hfront⟩,
    (hcreate (Or.inl rfl) (by decide +kernel)).mpr ⟨hfull, hfront⟩⟩

/-- Brackets in the middle of a text: four bytes in front are lost. -/
theorem not_payloadKept_middle :
    C2HMessage.parse (str "/msg hi [x] there") = .ok (some ⟨.msg, str "x] there", str "x"⟩) ∧
    C2HMessage.create .msg (ascii "%s") [str "hi [x] there"] =
      .ok ⟨.msg, str "x] there", str "x"⟩ ∧
    ¬ PayloadKept (ascii "hi [x] there") ⟨.msg, str "x] there", str "x"⟩ := by
  refine ⟨by decide +kernel, by decide +kernel, ?_⟩
  rintro (⟨h, -⟩ | h | h)
  · exact absurd h (by decide +kernel)
  · exact absurd h (by decide +kernel)
  · exact absurd h (by decide +kernel)

end C2Hat
