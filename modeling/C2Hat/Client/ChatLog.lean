import C2Hat.Client.ChatWin
import C2Hat.ListRuns

/-!
# The chat log

The log of `src/client/uichat.c` as the linked list it is kept in.  `UIChatWin_logMessage`
appends an entry with `List_append`, and deletes the oldest one with `List_delete` when there
are more than `kMaxCachedLines`.

## Main definitions

* `ChatLog.logMessage`, `ChatLog.logAll` — messages that are logged, on the list.
* `C2HMessage.Stored` — a message whose strings are in their arrays.
* `C2HMessage.Kept` — the messages that are logged.

## Main results

* `logMessage_refines` — **the list holds the log of the window.**
* `log_keeps_newest` — **the log consists of the newest messages.**
-/

namespace C2Hat

open Clib

/-! ### Messages and entries -/

/-- The strings of a message are in their arrays, with the terminators. -/
def C2HMessage.Stored (m : C2HMessage) : Prop :=
  m.content.bytes.length < kBufferSize ∧ m.user.bytes.length < kMaxNicknameSize

instance (m : C2HMessage) : Decidable m.Stored := inferInstanceAs (Decidable (_ ∧ _))

/-- A message that is logged. -/
def C2HMessage.Kept (m : C2HMessage) : Prop := m.type ≠ .quit ∧ m.content.bytes ≠ []

instance (m : C2HMessage) : Decidable m.Kept := inferInstanceAs (Decidable (_ ∧ _))

/-- The message an entry is made from. -/
def ChatLogEntry.message (e : ChatLogEntry) : C2HMessage := ⟨e.type, e.content, e.username⟩

/-- The entry for a message, if there is one. -/
def ChatLogEntry.logged (m : C2HMessage) : Option ChatLogEntry :=
  if m.type = .quit then none else ChatLogEntry.create m

/-- A string that fits is copied as it is. -/
theorem strncpy_of_le {s : CStr} {n : ℕ} (h : s.bytes.length ≤ n) : strncpy s n = s :=
  CStr.ext (List.take_of_length_le h)

theorem ChatLogEntry.create_eq {m : C2HMessage} (h : m.Stored) :
    (ChatLogEntry.create m).map ChatLogEntry.message =
      if m.content.bytes = [] then none else some m := by
  have hcontent : strncpy m.content (kBroadcastBufferSize - 1) = m.content := by
    refine strncpy_of_le (h.1.le.trans ?_)
    decide
  have huser : strncpy m.user kMaxNicknameSize = m.user := strncpy_of_le h.2.le
  unfold ChatLogEntry.create
  rw [hcontent, huser]
  split_ifs
  · rfl
  · rfl

/-- Nothing is lost of a message that is logged. -/
theorem ChatLogEntry.logged_eq {m : C2HMessage} (h : m.Stored) :
    (ChatLogEntry.logged m).map ChatLogEntry.message = if m.Kept then some m else none := by
  unfold ChatLogEntry.logged
  by_cases hquit : m.type = .quit
  · rw [if_pos hquit, if_neg fun hkept => hkept.1 hquit]
    rfl
  · rw [if_neg hquit, create_eq h]
    by_cases hempty : m.content.bytes = []
    · rw [if_pos hempty, if_neg fun hkept => hkept.2 hempty]
    · rw [if_neg hempty, if_pos ⟨hquit, hempty⟩]

theorem map_message_logged {messages : List C2HMessage} (h : ∀ m ∈ messages, m.Stored) :
    (messages.filterMap ChatLogEntry.logged).map ChatLogEntry.message =
      messages.filter (·.Kept) := by
  rw [List.map_filterMap, ← List.filterMap_eq_filter]
  refine List.filterMap_congr fun m hm => ?_
  rw [ChatLogEntry.logged_eq (h m hm)]
  simp [Option.guard]

/-! ### The log of the window -/

namespace UIChatWin

/-- The window after messages have been logged. -/
def logAll (w : UIChatWin) (messages : List C2HMessage) : UIChatWin :=
  messages.foldl (fun w m => w.logMessage m true) w

/-- The newest entries of a log that has got one more. -/
theorem rtake_concat {α : Type} (xs : List α) (x : α) (n : ℕ) :
    (xs ++ [x]).rtake n = if (xs.rtake n ++ [x]).length > n then (xs.rtake n ++ [x]).tail
      else xs.rtake n ++ [x] := by
  have hlen : (xs.rtake n ++ [x]).length = min xs.length n + 1 := by
    rw [List.length_append, List.rtake, List.length_drop, List.length_singleton]
    omega
  rw [hlen, ← List.rtake_concat_succ, List.rtake, List.rtake, List.length_append,
    List.length_singleton]
  split_ifs with hfull
  · rw [List.tail_drop]
    congr 1
    omega
  · congr 1
    omega

theorem logMessage_eq (w : UIChatWin) (m : C2HMessage) :
    w.logMessage m true = match ChatLogEntry.logged m with
      | none => w
      | some entry => w.cache entry := by
  unfold logMessage ChatLogEntry.logged
  by_cases hquit : m.type = .quit
  · rw [if_pos (.inl hquit), if_pos hquit]
  · have hkept : ¬ (m.type = .quit ∨ true = false) := by simp [hquit]
    cases ChatLogEntry.create m with
    | none => simp only [if_neg hkept, if_neg hquit]
    | some entry => simp only [if_neg hkept, if_neg hquit]

/-- **The cache** keeps the newest entries. -/
theorem chatlog_cache {w : UIChatWin} {xs : List ChatLogEntry}
    (h : w.chatlog = xs.rtake kMaxCachedLines.toNat) (entry : ChatLogEntry) :
    (w.cache entry).chatlog = (xs ++ [entry]).rtake kMaxCachedLines.toNat := by
  have hfull : ∀ n : ℕ, (n : ℤ) > kMaxCachedLines ↔ n > kMaxCachedLines.toNat := by
    intro n
    rw [kMaxCachedLines]
    omega
  rw [cache, rtake_concat, h]
  simp only [hfull]

theorem chatlog_logAll {w : UIChatWin} {xs : List ChatLogEntry}
    (h : w.chatlog = xs.rtake kMaxCachedLines.toNat) (messages : List C2HMessage) :
    (w.logAll messages).chatlog =
      (xs ++ messages.filterMap ChatLogEntry.logged).rtake kMaxCachedLines.toNat := by
  induction messages generalizing w xs with
  | nil =>
    rw [List.filterMap_nil, List.append_nil]
    exact h
  | cons m messages ih =>
    rw [logAll, List.foldl_cons, logMessage_eq, ← logAll]
    cases hm : ChatLogEntry.logged m with
    | none =>
      rw [List.filterMap_cons_none hm]
      exact ih h
    | some entry =>
      rw [List.filterMap_cons_some hm, List.append_cons]
      exact ih (chatlog_cache h entry)

end UIChatWin

/-! ### The list -/

namespace ChatLog

-- `size` is the size of an entry, `sizeof(ChatLogEntry)`
variable (size : ℕ)

/-- What `UIChatWin_logMessage(buffer)` does to the list; its allocations succeed. -/
def logMessage (chatlog : CList ChatLogEntry) (buffer : C2HMessage) :
    Except Fault (CList ChatLogEntry) :=
  if buffer.type = .quit then .ok chatlog
  else match ChatLogEntry.create buffer with
    | none => .ok chatlog
    | some entry => do
      let (_, chatlog) ← chatlog.append entry size true
      if (chatlog.length : ℤ) > kMaxCachedLines then
        let (_, chatlog) ← chatlog.delete 0
        return chatlog
      else return chatlog

/-- Messages that are logged one after the other. -/
def logAll (chatlog : CList ChatLogEntry) : List C2HMessage → Except Fault (CList ChatLogEntry)
  | [] => .ok chatlog
  | m :: messages => (logMessage size chatlog m).bind fun chatlog => logAll chatlog messages

variable {size} {l : CList ChatLogEntry} {w : UIChatWin}

/-- **The list holds the log of the window** after a message. -/
theorem logMessage_refines (h : Represents l (w.chatlog.map (·, size))) (m : C2HMessage) :
    ∃ l', logMessage size l m = .ok l' ∧
      Represents l' ((w.logMessage m true).chatlog.map (·, size)) := by
  rw [w.logMessage_eq]
  unfold logMessage ChatLogEntry.logged
  by_cases hquit : m.type = .quit
  · rw [if_pos hquit, if_pos hquit]
    exact ⟨l, rfl, h⟩
  rw [if_neg hquit, if_neg hquit]
  cases ChatLogEntry.create m with
  | none => exact ⟨l, rfl, h⟩
  | some entry =>
    obtain ⟨l₁, hrun, hrep⟩ := ListOp.run_spec h (.append entry size)
    rw [ListOp.run] at hrun
    have hmap : w.chatlog.map (·, size) ++ [(entry, size)] =
        (w.chatlog ++ [entry]).map (·, size) := by
      rw [List.map_append, List.map_singleton]
    have hlen : l₁.length = (w.chatlog ++ [entry]).length := by
      rw [hrep.length, hmap, List.length_map]
    simp only [hrun, bind, Except.bind, pure, Except.pure, hlen, UIChatWin.cache]
    split_ifs with hfull
    · -- the oldest entry is deleted
      have hpos : 0 < (w.chatlog.map (·, size) ++ [(entry, size)]).length := by simp
      obtain ⟨l', hdelete, hrep'⟩ := represents_delete hrep hpos
      rw [hmap, List.eraseIdx_zero, ← List.map_tail] at hrep'
      rw [Int.ofNat_zero] at hdelete
      exact ⟨l', by rw [hdelete], hrep'⟩
    · rw [hmap] at hrep
      exact ⟨l₁, rfl, hrep⟩

/-- **The list holds the log of the window** after any messages. -/
theorem logAll_refines (h : Represents l (w.chatlog.map (·, size))) (messages : List C2HMessage) :
    ∃ l', logAll size l messages = .ok l' ∧
      Represents l' ((w.logAll messages).chatlog.map (·, size)) := by
  induction messages generalizing l w with
  | nil => exact ⟨l, rfl, h⟩
  | cons m messages ih =>
    obtain ⟨l₁, hrun, hrep⟩ := logMessage_refines h m
    obtain ⟨l', hrest, hrep'⟩ := ih hrep
    refine ⟨l', ?_, hrep'⟩
    rw [logAll, hrun]
    exact hrest

/-- **The log consists of the newest messages**: after any messages it is a sequence of entries,
which is the log of the window, and the entries are made from the last `kMaxCachedLines` of the
messages that are neither of the type `quit` nor empty, with their types, contents and users. -/
theorem log_keeps_newest {messages : List C2HMessage} (h : ∀ m ∈ messages, m.Stored) :
    ∃ l, ∃ entries : List ChatLogEntry, logAll size CList.new messages = .ok l ∧
      IsSequence l (entries.map (·, size)) ∧
      entries = (UIChatWin.init.logAll messages).chatlog ∧
      entries.map ChatLogEntry.message =
        (messages.filter (·.Kept)).rtake kMaxCachedLines.toNat := by
  have hinit : Represents (CList.new : CList ChatLogEntry)
      (UIChatWin.init.chatlog.map (·, size)) := represents_new
  obtain ⟨l, hrun, hrep⟩ := logAll_refines hinit messages
  refine ⟨l, _, hrun, hrep.isSequence, rfl, ?_⟩
  have hempty : UIChatWin.init.chatlog = ([] : List ChatLogEntry).rtake kMaxCachedLines.toNat := rfl
  have hmap := map_message_logged h
  have hlen := congrArg List.length hmap
  rw [List.length_map] at hlen
  rw [UIChatWin.chatlog_logAll hempty, List.nil_append, List.rtake, List.rtake, List.map_drop,
    hmap, hlen]

/-- A message, an empty one and the last one of a session. -/
theorem log_keeps_newest_hello :
    ∃ l, ∃ entries : List ChatLogEntry, logAll 1704 CList.new
        [UIChatWin.hello, ⟨.ok, str "", str ""⟩, ⟨.quit, str "bye", str ""⟩] = .ok l ∧
      IsSequence l (entries.map (·, 1704)) ∧
      entries.map ChatLogEntry.message = [UIChatWin.hello] := by
  obtain ⟨l, entries, hrun, hseq, -, hentries⟩ := @log_keeps_newest 1704
    [UIChatWin.hello, ⟨.ok, str "", str ""⟩, ⟨.quit, str "bye", str ""⟩] (by decide)
  exact ⟨l, entries, hrun, hseq, hentries.trans (by decide)⟩

end ChatLog

end C2Hat
