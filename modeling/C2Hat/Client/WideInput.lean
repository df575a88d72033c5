import C2Hat.Lib.Utf8
import C2Hat.Message
import C2Hat.WTrim

/-!
# Wide input

The lines the user enters, in `App_authenticate` and `App_run` of `src/client/app.c`.  They are
trimmed in place, and converted to UTF-8 in an array that has been cleared.  The array for a
message has room for all of it; the one for a nickname has not.

## Main definitions

* `App.nickname`, `App.messageBuffer` — the arrays after the conversion.
* `App.Overflows` — a line that takes up all of the array for a nickname.

## Main results

* `wide_input_terminated_iff` — **when the input becomes a terminated string.**
-/

namespace C2Hat

open Clib

namespace App

/-- `kMaxNicknameInputBuffer`. -/
def kMaxNicknameInputBuffer : ℕ := 64 * 4

/-- `kMaxMessageLength`, with the terminator. -/
def kMaxMessageLength : ℕ := 281

/-- The size of the array for the nickname: `kMaxNicknameSize + sizeof(wchar_t)`. -/
def nicknameSize : ℕ := kMaxNicknameSize + 4

/-- A line in a cleared array. -/
def inputBuffer (line : WStr) (size : ℕ) : List WChar :=
  line.chars ++ List.replicate (size - line.chars.length) 0

/-- `nickname` in `App_authenticate`, for the user from the settings, and for the line that is
read when there is none. -/
def nickname (user : CStr) (line : WStr) : Except Fault Bytes :=
  if user.bytes.length > 0 then
    let copied := user.bytes.take kMaxNicknameSize
    .ok (copied ++ List.replicate (nicknameSize - copied.length) 0)
  else do
    let trimmedNickname ← InPlace.wtrim (inputBuffer line kMaxNicknameInputBuffer) none
    return wcstombs (List.replicate nicknameSize 0) trimmedNickname nicknameSize

/-- `messageBuffer` in `App_run`, for the line that is in `buffer`. -/
def messageBuffer (line : WStr) : Except Fault Bytes := do
  let trimmedBuffer ← InPlace.wtrim (inputBuffer line kMaxMessageLength) none
  return wcstombs (List.replicate kBufferSize 0) trimmedBuffer kBufferSize

/-- An array of that size with a terminator inside. -/
def Terminated (size : ℕ) (result : Except Fault Bytes) : Prop :=
  ∃ b, result = .ok b ∧ b.length = size ∧ 0 ∈ b

/-- The first characters of the line, up to some place, take up exactly the array for the
nickname, after the blanks around the line have gone. -/
def Overflows (line : WStr) : Prop :=
  ∃ front, front <+: stripped InPlace.defaultWideSeps line.chars ∧
    ∃ bytes, encodeAll front = some bytes ∧ bytes.length = nicknameSize

/-- The array that is trimmed holds a string. -/
theorem inputBuffer_eq {line : WStr} {size : ℕ} (h : line.chars.length < size) :
    inputBuffer line size =
      line.chars ++ 0 :: List.replicate (size - line.chars.length - 1) 0 := by
  obtain ⟨n, hn⟩ := Nat.exists_eq_add_one.mpr (Nat.sub_pos_of_lt h)
  rw [inputBuffer, hn, List.replicate_succ, Nat.add_sub_cancel]

/-- There is no terminator in what is left of a line. -/
theorem nul_notMem_stripped (line : WStr) (seps : List WChar) :
    (0 : WChar) ∉ stripped seps line.chars := by
  intro h
  have hfront := (List.dropWhile_suffix _).subset h
  exact line.nulFree ((List.rdropWhile_prefix _ _).subset hfront)

/-- **A line in an array** is trimmed and converted. -/
theorem terminated_iff {line : WStr} {size : ℕ} (h : line.chars.length < size)
    (hsize : size < 2 ^ 31) (n : ℕ) :
    Terminated n (do
      let trimmed ← InPlace.wtrim (inputBuffer line size) none
      return wcstombs (List.replicate n 0) trimmed n) ↔
    ∀ front, front <+: stripped InPlace.defaultWideSeps line.chars →
      ∀ bytes, encodeAll front = some bytes → bytes.length ≠ n := by
  obtain ⟨junk, -, hrun⟩ := InPlace.wtrim_run line.nulFree (h.trans hsize) none
  have hseps : InPlace.wideSeparators none = InPlace.defaultWideSeps := rfl
  rw [inputBuffer_eq h, hrun, hseps, List.append_assoc, List.cons_append,
    ← nul_mem_wcstombs_iff (nul_notMem_stripped line _)]
  constructor
  · rintro ⟨b, hb, -, hnul⟩
    cases hb
    exact hnul
  · intro hnul
    refine ⟨_, rfl, ?_, hnul⟩
    rw [length_wcstombs _ _ (by rw [List.length_replicate]), List.length_replicate]

/-- Trimming does not make a line longer. -/
theorem length_stripped_le (seps s : List WChar) : (stripped seps s).length ≤ s.length :=
  (List.dropWhile_suffix _).length_le.trans (List.rdropWhile_prefix _ s).length_le

/-- The characters in front of some place of a line have at most four bytes each. -/
theorem length_front_le {line : WStr} {front : List WChar} {bytes : Bytes}
    (hfront : front <+: stripped InPlace.defaultWideSeps line.chars)
    (hbytes : encodeAll front = some bytes) : bytes.length ≤ 4 * line.chars.length := by
  have hlen := length_encodeAll hbytes
  have hle := hfront.length_le.trans (length_stripped_le _ line.chars)
  omega

/-- **A message** always becomes a terminated string. -/
theorem message_terminated {line : WStr} (h : line.chars.length < kMaxMessageLength) :
    Terminated kBufferSize (messageBuffer line) := by
  refine (terminated_iff h (by decide) kBufferSize).mpr ?_
  intro front hfront bytes hbytes
  have hlen := length_front_le hfront hbytes
  rw [kMaxMessageLength] at h
  rw [kBufferSize]
  omega

/-- A line that is not longer than a nickname may be leaves room for the terminator. -/
theorem not_overflows {line : WStr} (h : line.chars.length ≤ kMaxNicknameLength) :
    ¬ Overflows line := by
  rintro ⟨front, hfront, bytes, hbytes, hfull⟩
  have hlen := length_front_le hfront hbytes
  rw [kMaxNicknameLength] at h
  rw [nicknameSize, kMaxNicknameSize] at hfull
  omega

/-- A nickname from the settings does so, too. -/
theorem user_terminated {user : CStr} (h : user.bytes.length > 0) (line : WStr) :
    Terminated nicknameSize (nickname user line) := by
  have hle : (user.bytes.take kMaxNicknameSize).length ≤ kMaxNicknameSize :=
    List.length_take_le _ _
  have hsize : nicknameSize = kMaxNicknameSize + 4 := rfl
  refine ⟨_, if_pos h, ?_, ?_⟩
  · rw [List.length_append, List.length_replicate]
    omega
  · refine List.mem_append_right _ (List.mem_replicate.mpr ⟨?_, rfl⟩)
    omega

/-- **Wide input becomes a terminated string**: any message does, and a nickname does unless its
first characters take up exactly the array it is converted in. -/
theorem wide_input_terminated_iff {line message : WStr}
    (hline : line.chars.length < kMaxNicknameInputBuffer)
    (hmessage : message.chars.length < kMaxMessageLength) :
    Terminated kBufferSize (messageBuffer message) ∧
      (Terminated nicknameSize (nickname CStr.empty line) ↔ ¬ Overflows line) := by
  refine ⟨message_terminated hmessage, ?_⟩
  have hiff := terminated_iff hline (by decide) nicknameSize
  have hnickname : nickname CStr.empty line = do
      let trimmed ← InPlace.wtrim (inputBuffer line kMaxNicknameInputBuffer) none
      return wcstombs (List.replicate nicknameSize 0) trimmed nicknameSize := rfl
  rw [hnickname, hiff, Overflows]
  constructor
  · rintro hall ⟨front, hfront, bytes, hbytes, hlen⟩
    exact hall front hfront bytes hbytes hlen
  · intro hnot front hfront bytes hbytes hlen
    exact hnot ⟨front, hfront, bytes, hbytes, hlen⟩

/-- A nickname of a few letters becomes a terminated string. -/
theorem wide_input_terminated_joe :
    Terminated nicknameSize (nickname CStr.empty ⟨[74, 111, 101, 10], by decide⟩) :=
  (@wide_input_terminated_iff ⟨[74, 111, 101, 10], by decide⟩ ⟨[], List.not_mem_nil⟩ (by decide)
    (by decide)).2.mpr
    (not_overflows (by decide))

/-- A line of 64 letters. -/
def letters : WStr :=
  ⟨List.replicate 64 97 ++ [10], by decide⟩

/-- A line of 64 letters takes up all of the array. -/
theorem not_wide_input_terminated :
    letters.chars.length < kMaxNicknameInputBuffer ∧
      ¬ Terminated nicknameSize (nickname CStr.empty letters) := by
  refine ⟨by decide, ?_⟩
  have hlen : letters.chars.length < kMaxNicknameInputBuffer := by decide
  have hiff := terminated_iff hlen (by decide) nicknameSize
  intro hterminated
  refine hiff.mp hterminated (List.replicate 64 97) ?_ (List.replicate 64 97) ?_ ?_
  · exact ⟨[], by decide +kernel⟩
  · decide +kernel
  · rw [List.length_replicate]
    rfl

end App

end C2Hat
