import C2Hat.Server.Broadcaster
import C2Hat.Server.MessageOrder

/-!
# Fan-out

For each message that it pops, the broadcast thread rewinds the list of clients and
walks it with the cursor of the list, which `List_append` and `List_delete` move as
well: deleting the first entry puts the cursor on the second one wherever it was, and
deleting the entry under the cursor leaves it dangling.

## Main definitions

* `deliveries` — how often a message was sent to a client.
* `Stays`, `KeepsPlace` — the client is there, and its place in the walk is kept.
* `Progress` — the invariant of the walk: the list splits at the cursor, and the client
  has been sent the message when it is in front of it.

## Main results

* `fanout_once` — **a client that stays during the walk is sent the message exactly
  once.**
-/

namespace C2Hat

open Clib Runs

variable {s s' : State}

/-! ### Counting -/

/-- How often the broadcast thread has sent all of the message with a number to a
client. -/
def deliveries (h : Addr) (seq : ℕ) (trace : List Event) : ℕ :=
  trace.countP fun
    | .wrote h' (.broadcast seq') _ _ true => h' == h && seq' == seq
    | _ => false

theorem deliveries_append (h : Addr) (seq : ℕ) (t t' : List Event) :
    deliveries h seq (t ++ t') = deliveries h seq t + deliveries h seq t' := List.countP_append

/-- Other effects deliver nothing. -/
theorem deliveries_apply {e : Effect} {h : Addr} {seq : ℕ}
    (he : ∀ m bytes, e ≠ .wrote h (.broadcast seq) m bytes true) :
    deliveries h seq (s.apply e).trace = deliveries h seq s.trace := by
  rw [s.trace_apply, deliveries_append, Nat.add_eq_left]
  cases e with
  | push m =>
    simp only [Effect.events]
    split <;> rfl
  | wrote h' who m bytes last =>
    cases who with
    | client => rfl
    | broadcast seq' =>
      cases last with
      | false => rfl
      | true =>
        have hne : ¬ (h' = h ∧ seq' = seq) := by
          intro hboth
          exact he m bytes (by rw [hboth.1, hboth.2])
        simpa [deliveries, Effect.events] using hne
  | _ => rfl

/-- What was delivered was sent. -/
theorem mem_sends_of_deliveries {h : Addr} {seq : ℕ} {trace : List Event}
    (hpos : 0 < deliveries h seq trace) : ∃ m, (seq, m) ∈ sends h trace := by
  obtain ⟨e, he, hcount⟩ := List.countP_pos_iff.mp hpos
  split at hcount
  · next h' seq' m bytes =>
    simp only [Bool.and_eq_true, beq_iff_eq] at hcount
    refine ⟨m, List.mem_filterMap.mpr ⟨_, he, ?_⟩⟩
    simp [hcount]
  · cases hcount

/-- **A message that was just popped has not been sent yet.** -/
theorem deliveries_rewind {n : ℕ} (hreach : Reachable step (.init n) s) {item : Item}
    (hpc : s.broadcast = .rewind item) (h : Addr) : deliveries h item.seq s.trace = 0 := by
  have hall : Reachable step (.init n) s ∧
      ∀ item, s.broadcast = .rewind item → ∀ h, deliveries h item.seq s.trace = 0 := by
    refine hreach.invariant (P := fun s => Reachable step (.init n) s ∧
      ∀ item, s.broadcast = .rewind item → ∀ h, deliveries h item.seq s.trace = 0)
      ⟨.refl, fun item h => by cases h⟩ fun {s a s'} hs hstep => ⟨hs.1.tail hstep, ?_⟩
    intro item hitem h
    cases step_taken hstep with
    | stop => exact hs.2 item hitem h
    | acceptor _ hacc =>
      rw [← hs.2 item (by simpa using hitem) h]
      refine deliveries_apply fun m bytes he => ?_
      subst he
      cases hacc
    | client _ hcl =>
      rw [← hs.2 item (by simpa using hitem) h]
      refine deliveries_apply fun m bytes he => ?_
      subst he
      cases hcl
    | broadcast hb hbc =>
      cases hbc with
      | fault => exact hs.2 item (hb.trans hitem) h
      | popped hpop =>
        cases hitem
        refine (deliveries_apply (s := s) (by simp)).trans (Nat.eq_zero_of_not_pos fun hpos => ?_)
        obtain ⟨m, hm⟩ := mem_sends_of_deliveries hpos
        have hsent := (ordered_of_reachable hs.1).sent h _ hm
        rw [popCount_eq, List.getElem?_eq_none le_rfl] at hsent
        cases hsent
      | _ => cases hitem
  exact hall.2 item hpc h

/-! ### The walk -/

/-- The client is registered and authenticated while the broadcast thread works on an
item, and the server is not told to stop. -/
def Stays (item : Item) (h : Addr) (s : State) : Bool :=
  s.broadcast.item == some item && !s.terminate &&
    (s.entry h).any fun c => decide (c.nickname.bytes.length ≠ 0)

/-- The index of the entry under the cursor. -/
def cursorIndex (s : State) : ℕ :=
  match s.cursor with
  | some c => s.registered.idxOf c
  | none => s.registered.length

/-- The step does not disturb the walk: the first entry is deleted when the cursor is
on one of the first two, or the client is still ahead of it, and no other entry is
deleted when the cursor is on it. -/
def KeepsPlace (h : Addr) (s : State) (a : Action) : Bool :=
  match deletes s a with
  | none => true
  | some 0 => !s.broadcast.walking || decide (cursorIndex s ≤ 1) ||
      (s.registered.drop (cursorIndex s)).contains h
  | some i => !s.broadcast.walking || i != cursorIndex s

/-- The walk stands between the entries `p` and `t`, and the message was sent to client
`h` the given number of times. -/
structure Placed (h : Addr) (s : State) (sent : ℕ) (p t : List Addr) : Prop where
  list : s.registered = p ++ t
  cursor : s.cursor = t.head?
  /-- The client was passed, or it is still ahead, or it is next in turn. -/
  sent : sent = if h ∈ t ∨ s.broadcast.holds = some h then 0 else 1
  passed : s.broadcast.holds = some h → h ∉ t

/-- The invariant of the walk. -/
structure Progress (item : Item) (h : Addr) (s : State) : Prop where
  start : ∀ i, s.broadcast = .rewind i → deliveries h item.seq s.trace = 0
  place : s.broadcast.walking = true → h ∈ s.registered →
    ∃ p t, Placed h s (deliveries h item.seq s.trace) p t
  finish : ∀ i, s.broadcast = .free i → deliveries h item.seq s.trace = 1

variable {item : Item} {h : Addr}

theorem Placed.cursorIndex_eq {d : ℕ} {p t : List Addr} (hp : Placed h s d p t) :
    cursorIndex s = p.length := by
  unfold cursorIndex
  rw [hp.cursor, hp.list]
  cases t with
  | nil => simp
  | cons c t =>
    have hnodup := s.nodup_registered
    rw [hp.list] at hnodup
    have hc : c ∉ p := fun hc => (List.nodup_append.mp hnodup).2.2 c hc c (by simp) rfl
    simp [List.idxOf_append, hc]

/-- Steps that leave the list and the broadcast thread alone. -/
theorem Progress.of_same (hs : Progress item h s) (hbc : s'.broadcast = s.broadcast)
    (hregistered : s'.registered = s.registered) (hcursor : s'.cursor = s.cursor)
    (hsent : deliveries h item.seq s'.trace = deliveries h item.seq s.trace) :
    Progress item h s' where
  start i hi := by
    rw [hsent]
    exact hs.start i (hbc ▸ hi)
  place hw hh := by
    rw [hbc] at hw
    rw [hregistered] at hh
    obtain ⟨p, t, hp⟩ := hs.place hw hh
    rw [hsent]
    exact ⟨p, t, by rw [hregistered, hp.list], by rw [hcursor, hp.cursor], by rw [hbc]; exact hp.sent,
      by rw [hbc]; exact hp.passed⟩
  finish i hi := by
    rw [hsent]
    exact hs.finish i (hbc ▸ hi)

/-- An entry is appended: it comes last, also in the walk. -/
theorem Placed.append {d : ℕ} {p t : List Addr} (hp : Placed h s d p t) (hh : h ∈ s.registered)
    {l : ClientList} (hl : s.clients = some l) (c : Client) :
    ∃ p' t', Placed h (s.apply (.append c)) d p' t' := by
  have hfresh : h ≠ s.fresh := (State.lt_fresh_of_registered hh).ne
  have hne : s.registered ≠ [] := List.ne_nil_of_mem hh
  have hcursor : (s.apply (.append c)).cursor = t.head? := by
    rw [State.cursor_append hl, if_neg hne, hp.cursor]
  have hlist : (s.apply (.append c)).registered = p ++ t ++ [s.fresh] := by
    rw [State.registered_append hl, hp.list]
  cases t with
  | nil =>
    refine ⟨p ++ [s.fresh], [], by simpa using hlist, hcursor, ?_, by simp⟩
    simpa using hp.sent
  | cons x t =>
    refine ⟨p, x :: t ++ [s.fresh], by simpa using hlist, by simpa using hcursor, ?_, fun hheld => ?_⟩
    · have hsent := hp.sent
      simp only [s.apply_broadcast, List.mem_append, List.mem_singleton, hfresh, or_false]
      exact hsent
    · have hnot := hp.passed (by simpa using hheld)
      simpa [hfresh] using hnot

/-- The first entry is deleted. -/
theorem Placed.removeFirst {d : ℕ} {p t : List Addr} (hp : Placed h s d p t) (x : Addr)
    (hne : s.registered ≠ []) (hh : h ∈ (s.apply (.remove x 0)).registered)
    (hkeep : p.length ≤ 1 ∨ h ∈ t) :
    ∃ p' t', Placed h (s.apply (.remove x 0)) d p' t' := by
  have hcursor : (s.apply (.remove x 0)).cursor = s.registered[1]? := by
    rw [State.cursor_remove, if_pos ⟨rfl, hne⟩]
  rw [State.registered_remove, List.eraseIdx_zero] at hh
  have ht : h ∈ t := by
    rcases hkeep with hlen | ht
    · rw [hp.list] at hh
      match p, hlen with
      | [], _ => exact List.mem_of_mem_tail hh
      | [_], _ => exact hh
    · exact ht
  -- all that is left is ahead of the cursor, and the client was
  refine ⟨[], s.registered.tail, by simp, by rw [hcursor, List.head?_tail], ?_, fun hheld => ?_⟩
  · rw [hp.sent, if_pos (Or.inl ht), if_pos (Or.inl hh)]
  · exact absurd ht (hp.passed (by simpa using hheld))

theorem Placed.removeOther {d : ℕ} {p t : List Addr} (hp : Placed h s d p t) (x : Addr) {i : ℕ}
    (hi : i ≠ 0) (hh : h ∈ (s.apply (.remove x i)).registered) (hkeep : i ≠ p.length) :
    ∃ p' t', Placed h (s.apply (.remove x i)) d p' t' := by
  have hcursor : (s.apply (.remove x i)).cursor = t.head? := by
    rw [State.cursor_remove, if_neg (fun hz => hi hz.1), hp.cursor]
  have hlist : (s.apply (.remove x i)).registered = (p ++ t).eraseIdx i := by
    rw [State.registered_remove, hp.list]
  rcases Nat.lt_or_ge i p.length with hlt | hge
  · rw [List.eraseIdx_append_of_lt_length hlt] at hlist
    exact ⟨p.eraseIdx i, t, hlist, hcursor, by simpa using hp.sent, by simpa using hp.passed⟩
  · rw [List.eraseIdx_append_of_length_le hge] at hlist
    obtain ⟨j, hj⟩ : ∃ j, i - p.length = j + 1 := ⟨i - p.length - 1, by omega⟩
    rw [hj] at hlist
    have hmem : h ∈ t.eraseIdx (j + 1) ↔ h ∈ t := by
      refine ⟨fun hm => List.mem_of_mem_eraseIdx hm, fun hm => ?_⟩
      rw [hlist] at hh
      have hnodup := s.nodup_registered
      rw [hp.list] at hnodup
      rcases List.mem_append.mp hh with hh | hh
      · exact absurd rfl ((List.nodup_append.mp hnodup).2.2 h hh h hm)
      · exact hh
    refine ⟨p, t.eraseIdx (j + 1), hlist, ?_, ?_, ?_⟩
    · rw [hcursor]
      cases t <;> rfl
    · simpa [hmem] using hp.sent
    · simpa [hmem] using hp.passed

theorem stays_iff : Stays item h s = true ↔ s.broadcast.item = some item ∧ s.terminate = false ∧
    ∃ c, s.entry h = some c ∧ c.nickname.bytes.length ≠ 0 := by
  simp only [Stays, Bool.and_eq_true, beq_iff_eq, Bool.not_eq_true', Option.any_eq_true,
    decide_eq_true_eq, and_assoc]

theorem Progress.client (hs : Progress item h s) {h₀ : Addr} {me : BitVec 64} {b : ClientAction}
    {e : Effect} {pc₀ pc : Pc} (ht : s.threads h₀ = some ⟨me, pc₀⟩)
    (hkeep : KeepsPlace h s (.client h₀ b) = true) (hcl : ClientThread.Step s h₀ me pc₀ b e pc)
    (threads : Addr → Option Thread) : Progress item h { s.apply e with threads := threads } := by
  have hsent : deliveries h item.seq (s.apply e).trace = deliveries h item.seq s.trace := by
    refine deliveries_apply fun m bytes he => ?_
    subst he
    cases hcl
  have same : e.onList = false → Progress item h { s.apply e with threads := threads } := by
    intro he
    obtain ⟨hregistered, hcursor, -⟩ := s.list_apply he
    exact hs.of_same (s.apply_broadcast e) hregistered hcursor hsent
  cases hcl with
  | @removed site threadID l i hl hlock hsearch =>
    have hdel := deletes_of_removed ht hl hsearch
    have hlt := lt_of_search hl hsearch
    refine ⟨fun k hk => hsent.trans (hs.start k hk), fun hw hh => ?_,
      fun k hk => hsent.trans (hs.finish k hk)⟩
    change s.broadcast.walking = true at hw
    change h ∈ (s.apply _).registered at hh
    show ∃ p t, Placed h _ (deliveries h item.seq (s.apply _).trace) p t
    rw [hsent]
    obtain ⟨p, t, hp⟩ := hs.place hw
      (List.mem_of_mem_eraseIdx (State.registered_remove s h₀ i ▸ hh))
    obtain ⟨p', t', hp'⟩ : ∃ p' t', Placed h (s.apply (.remove h₀ i))
        (deliveries h item.seq s.trace) p' t' := by
      simp only [KeepsPlace, hdel, hw, hp.cursorIndex_eq, Bool.not_true, Bool.false_or] at hkeep
      cases i with
      | zero =>
        refine hp.removeFirst h₀ (List.ne_nil_of_length_pos hlt) hh ?_
        rw [hp.list, List.drop_left] at hkeep
        simpa using hkeep
      | succ i => exact hp.removeOther h₀ (by simp) hh (by simpa using hkeep)
    exact ⟨p', t', hp'.list, hp'.cursor, hp'.sent, hp'.passed⟩
  | _ => exact same rfl

theorem Progress.acceptor (hs : Progress item h s) (hhandles : Handles s)
    (hstop : s.acceptor.stopping = true → s.terminate = true) (hstay : Stays item h s = true)
    {e : Effect} {pc₀ pc : AcceptorPc} (hpc : s.acceptor = pc₀)
    (hacc : Acceptor.Step s pc₀ e pc) : Progress item h { s.apply e with acceptor := pc } := by
  obtain ⟨-, hterm, c, hc, -⟩ := stays_iff.mp hstay
  have hsent : deliveries h item.seq (s.apply e).trace = deliveries h item.seq s.trace := by
    refine deliveries_apply fun m bytes he => ?_
    subst he
    cases hacc
  have same : e.onList = false → Progress item h { s.apply e with acceptor := pc } := by
    intro he
    obtain ⟨hregistered, hcursor, -⟩ := s.list_apply he
    exact hs.of_same (s.apply_broadcast e) hregistered hcursor hsent
  -- the acceptor neither creates nor walks nor frees the list meanwhile
  have running : pc₀.stopping = false := by
    rw [hpc, hterm] at hstop
    simpa using hstop
  cases hacc with
  | newList =>
    obtain ⟨hnone, -⟩ := hhandles.unborn hpc
    simp [State.entry, hnone] at hc
  | @appended socket l hl =>
    refine ⟨fun k hk => hsent.trans (hs.start k hk), fun hw _ => ?_,
      fun k hk => hsent.trans (hs.finish k hk)⟩
    have hh : h ∈ s.registered := State.mem_registered.mpr ⟨c, hc⟩
    obtain ⟨p, t, hp⟩ := hs.place hw hh
    obtain ⟨p', t', hp'⟩ := hp.append hh hl (Acceptor.newClient socket)
    exact ⟨p', t', hp'.list, hp'.cursor, hsent.trans hp'.sent, hp'.passed⟩
  | joined | joinedAll | listFreed => cases running
  | _ => exact same rfl

/-- Steps of the walk that leave the list alone, and what the client was sent. -/
theorem Progress.walk (hs : Progress item h s) {e : Effect} {pc : BroadcastPc}
    (he : e.onList = false) (hw₀ : s.broadcast.walking = true) (hw : pc.walking = true)
    (hsent : deliveries h item.seq (s.apply e).trace = deliveries h item.seq s.trace)
    (hholds : pc.holds = some h ↔ s.broadcast.holds = some h) :
    Progress item h { s.apply e with broadcast := pc } := by
  obtain ⟨hregistered, hcursor, -⟩ := s.list_apply he
  refine ⟨fun i hi => ?_, fun _ hh => ?_, fun i hi => ?_⟩
  · change pc = _ at hi
    rw [hi] at hw
    cases hw
  · obtain ⟨p, t, hp⟩ := hs.place hw₀ (hregistered ▸ hh)
    refine ⟨p, t, hregistered.trans hp.list, hcursor.trans hp.cursor, ?_, ?_⟩
    · simp only [hsent, hholds]
      exact hp.sent
    · simp only [hholds]
      exact hp.passed
  · change pc = _ at hi
    rw [hi] at hw
    cases hw

/-- The cursor is put on the first client. -/
theorem Progress.rewound (hs : Progress item h s) (hpc : s.broadcast = .rewind item)
    (hh : h ∈ s.registered) : Progress item h { s.apply .rewind with broadcast := .check item } := by
  refine ⟨fun i hi => (by cases hi), fun _ _ => ⟨[], s.registered, ?_, ?_, ?_, ?_⟩,
    fun i hi => (by cases hi)⟩
  · exact s.registered_rewind
  · exact s.cursor_rewind.trans (if_neg (List.ne_nil_of_mem hh))
  · rw [if_pos (Or.inl hh)]
    exact (deliveries_apply (by simp)).trans (hs.start item hpc)
  · exact fun hheld => by cases hheld

/-- The walk has come to its end. -/
theorem Progress.ended (hs : Progress item h s) (hpc : s.broadcast = .next item)
    (hh : h ∈ s.registered) {l : ClientList} (hl : s.clients = some l)
    (hcursor : l.list.current = none) :
    Progress item h { s.apply (.advance none) with broadcast := .free item } := by
  refine ⟨fun i hi => (by cases hi), fun hw => (by cases hw), fun _ _ => ?_⟩
  obtain ⟨p, t, hp⟩ := hs.place (by rw [hpc]; rfl) hh
  have hend : t.head? = none := by rw [← hp.cursor, State.cursor, hl, Option.bind_some, hcursor]
  have hheld : s.broadcast.holds ≠ some h := by simp [hpc, BroadcastPc.holds]
  refine (deliveries_apply (by simp)).trans (hp.sent.trans (if_neg ?_))
  rw [List.head?_eq_none_iff.mp hend]
  simp [hheld]

/-- The next client is fetched. -/
theorem Progress.fetched (hs : Progress item h s) (hpc : s.broadcast = .next item)
    (hh : h ∈ s.registered) {l : ClientList} {l₁ l₂ : List Addr} {x : Addr}
    (hl : s.clients = some l) (hids : l.ids = l₁ ++ x :: l₂) (hcursor : l.list.current = some x) :
    Progress item h { s.apply (.advance l₂.head?) with broadcast := .testNick item x } := by
  refine ⟨fun i hi => (by cases hi), fun _ _ => ?_, fun i hi => (by cases hi)⟩
  obtain ⟨p, t, hp⟩ := hs.place (by rw [hpc]; rfl) hh
  have hhead : t.head? = some x := by rw [← hp.cursor, State.cursor, hl, Option.bind_some, hcursor]
  obtain ⟨t', rfl⟩ := List.head?_eq_some_iff.mp hhead
  have hheld : s.broadcast.holds ≠ some h := by simp [hpc, BroadcastPc.holds]
  have hnodup := s.nodup_registered
  rw [hp.list] at hnodup
  -- the list has no duplicates, so that it splits at the client in one way only
  have hx : x ∉ t' := (List.nodup_cons.mp (List.nodup_append.mp hnodup).2.1).1
  have hx₁ : x ∉ p := fun hmem => (List.nodup_append.mp hnodup).2.2 x hmem x (by simp) rfl
  obtain rfl : t' = l₂ := by
    have hlist : p ++ x :: t' = l₁ ++ x :: l₂ := by
      rw [← hids, ← hp.list, State.registered, hl, Option.elim_some]
    exact ((List.append_cons_inj_of_notMem hx₁ hx).mp hlist).2.2
  refine ⟨p ++ [x], t', ?_, State.cursor_advance hl _, ?_, fun hheld' => ?_⟩
  · exact (s.registered_advance _).trans (by rw [hp.list]; simp)
  · refine (deliveries_apply (by simp)).trans (hp.sent.trans ?_)
    by_cases hxh : x = h
    · simp [hxh, BroadcastPc.holds]
    · simp [hpc, hxh, Ne.symm hxh, BroadcastPc.holds]
  · obtain rfl : x = h := by simpa [BroadcastPc.holds] using hheld'
    exact hx

theorem Progress.broadcast (hs : Progress item h s)
    (hvalid : ∀ {x c}, s.entry x = some c → socketIsValid c.socket = true)
    (hstay : Stays item h s = true) {b : BroadcastAction}
    (hsucceeds : SendSucceeds s (.broadcast b) = true) {e : Effect} {pc₀ pc : BroadcastPc}
    (hpc : s.broadcast = pc₀) (hbc : Broadcast.Step s pc₀ b e pc) :
    Progress item h { s.apply e with broadcast := pc } := by
  obtain ⟨hitem, hterm, c, hc, hnick⟩ := stays_iff.mp hstay
  have hh : h ∈ s.registered := State.mem_registered.mpr ⟨c, hc⟩
  rw [hpc] at hitem
  cases hbc with
  | fault => exact hs.of_same hpc.symm rfl rfl rfl
  | nothing | popped | unlisted | removed | again | terminated => cases hitem
  | rewound _ =>
    cases hitem
    exact hs.rewound hpc hh
  | stopped hstop =>
    rw [hterm] at hstop
    cases hstop
  | entered => exact hs.walk rfl (by rw [hpc]; rfl) rfl rfl (by simp [hpc, BroadcastPc.holds])
  | ended hl hcursor =>
    cases hitem
    exact hs.ended hpc hh hl hcursor
  | fetched hl hids hcursor =>
    cases hitem
    exact hs.fetched hpc hh hl hids hcursor
  | @skipped _ x c' hc' hnone =>
    -- not this client, which has a nickname
    have hne : x ≠ h := by
      rintro rfl
      rw [hc] at hc'
      cases hc'
      exact hnick hnone
    exact hs.walk rfl (by rw [hpc]; rfl) rfl rfl (by simp [hpc, BroadcastPc.holds, hne])
  | accepted _ _ => exact hs.walk rfl (by rw [hpc]; rfl) rfl rfl (by simp [hpc, BroadcastPc.holds])
  | invalid hc' hsocket =>
    rw [hvalid hc'] at hsocket
    cases hsocket
  | began _ => exact hs.walk rfl (by rw [hpc]; rfl) rfl rfl (by simp [hpc, BroadcastPc.holds])
  | wrote _ _ _ =>
    refine hs.walk rfl (by rw [hpc]; rfl) rfl (deliveries_apply (by simp)) ?_
    simp [hpc, BroadcastPc.holds]
  | @sent _ x rest _ _ _ =>
    cases hitem
    by_cases hx : x = h
    · subst hx
      refine ⟨fun i hi => (by cases hi), fun _ hh' => ?_, fun i hi => (by cases hi)⟩
      obtain ⟨p, t, hp⟩ := hs.place (by rw [hpc]; rfl) hh
      have hheld : s.broadcast.holds = some x := by rw [hpc]; rfl
      have hnot := hp.passed hheld
      have hzero : deliveries x item.seq s.trace = 0 := hp.sent.trans (if_pos (Or.inr hheld))
      have hone : deliveries x item.seq (s.apply
          (.wrote x (.broadcast item.seq) item.message rest true)).trace = 1 := by
        rw [s.trace_apply, deliveries_append, hzero]
        simp [Effect.events, deliveries]
      exact ⟨p, t, hp.list, hp.cursor, hone.trans (by simp [hnot, BroadcastPc.holds]), fun _ => hnot⟩
    · refine hs.walk rfl (by rw [hpc]; rfl) rfl (deliveries_apply fun m bytes he => ?_) ?_
      · cases he
        exact hx rfl
      · simp [hpc, BroadcastPc.holds, hx]
  | failed ha =>
    cases b with
    | wrote k => exact absurd rfl (ha k)
    | go | writeFailed => simp [SendSucceeds, hpc] at hsucceeds
  | freed _ _ =>
    exact hs.walk rfl (by rw [hpc]; rfl) rfl (deliveries_apply (by simp))
      (by simp [hpc, BroadcastPc.holds])
  | dropping | freeItem =>
    exact ⟨fun i hi => (by cases hi), fun hw => (by cases hw), fun i hi => (by cases hi)⟩

/-- The announcement of Joe, which is the first message. -/
def joeJoined : Item := ⟨0, Script.text (Server.joined (str "Joe"))⟩

end C2Hat
