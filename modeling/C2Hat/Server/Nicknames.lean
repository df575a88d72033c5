import C2Hat.Server.Invariants

/-!
# Nicknames

A client's thread looks its nickname up under the lock, releases the lock, and stores
the nickname later.  Between the two steps the nickname is pending: it is not in the
list yet, and another thread that looks it up finds it free as well.

Before that the nickname is matched against a pattern, and an error of the regular
expression library is taken for a match.

## Main definitions

* `State.pending` — the nickname that a thread has found free and not stored yet.
* `LooksUpAlone` — a nickname is looked up only when it is pending for nobody else.
* `MatchesReliably` — the library does not fail on a nickname that does not match.

## Main results

* `nickname_unique` — **no two registered clients have the same nickname** in the runs
  where nicknames are looked up alone.
* `nickname_valid` — **stored nicknames match the pattern** in the runs where the
  library does not fail on others.
-/

namespace C2Hat

open Clib Runs

variable {s s' : State} {n : ℕ}

/-- The nickname that was found free and is going to be stored. -/
def Pc.pending : Pc → Option CStr
  | .lookupThread nick | .storeNick nick => some nick
  | _ => none

/-- The pending nickname of a client. -/
def State.pending (s : State) (h : Addr) : Option CStr := (s.threads h).bind fun t => t.pc.pending

/-- When a thread looks up a nickname, it fits into the entry, and no other thread has
found it free and not stored it yet. -/
def LooksUpAlone (s : State) (a : Action) : Bool :=
  match a with
  | .client h .go =>
    match s.threads h with
    | some ⟨_, .lookupNick nick⟩ => decide (nick.bytes.length < kMaxNicknameSize) &&
        (List.range s.fresh).all fun h' => s.pending h' != some nick
    | _ => true
  | _ => true

/-- Nicknames are unique, also those that are pending. -/
structure NicknamesUnique (s : State) : Prop where
  unique : ∀ h h' c c', s.entry h = some c → s.entry h' = some c' →
    c.nickname = c'.nickname → c.nickname ≠ CStr.empty → h = h'
  /-- A pending nickname is not truncated. -/
  fits : ∀ h nick, s.pending h = some nick → nick.bytes.length < kMaxNicknameSize
  /-- It is in no entry. -/
  free : ∀ h nick, s.pending h = some nick → nick ≠ CStr.empty →
    ∀ h' c, s.entry h' = some c → c.nickname ≠ nick
  /-- It is pending for one thread only. -/
  alone : ∀ h h' nick, s.pending h = some nick → s.pending h' = some nick → h = h'

theorem nicknamesUnique_init : NicknamesUnique (.init n) where
  unique h h' c c' hc := by cases hc
  fits h nick hp := by cases hp
  free h nick hp := by cases hp
  alone h h' nick hp := by cases hp

/-- Steps that store no nickname and find none free. -/
theorem NicknamesUnique.of_sub (hs : NicknamesUnique s)
    (hentry : ∀ h c', s'.entry h = some c' →
      c'.nickname = CStr.empty ∨ ∃ c, s.entry h = some c ∧ c'.nickname = c.nickname)
    (hpending : ∀ h nick, s'.pending h = some nick → s.pending h = some nick) :
    NicknamesUnique s' where
  unique h h' c c' hc hc' heq hne := by
    rcases hentry h c hc with hempty | ⟨d, hd, hcd⟩
    · exact absurd hempty hne
    · rcases hentry h' c' hc' with hempty | ⟨d', hd', hcd'⟩
      · exact absurd (heq.trans hempty) hne
      · exact hs.unique h h' d d' hd hd' (by rw [← hcd, ← hcd', heq]) (hcd ▸ hne)
  fits h nick hp := hs.fits h nick (hpending h nick hp)
  free h nick hp hne h' c hc := by
    rcases hentry h' c hc with hempty | ⟨d, hd, hcd⟩
    · exact fun heq => hne (heq.symm.trans hempty)
    · rw [hcd]
      exact hs.free h nick (hpending h nick hp) hne h' d hd
  alone h h' nick hp hp' := hs.alone h h' nick (hpending h nick hp) (hpending h' nick hp')

/-- The nicknames that an effect leaves, when it is not the one to store them. -/
theorem nickname_apply {e : Effect} (hstore : ∀ h nick, e ≠ .setNickname h nick)
    (happend : ∀ c, e = .append c → c.nickname = CStr.empty) (h : Addr) (c' : Client)
    (hc' : (s.apply e).entry h = some c') :
    c'.nickname = CStr.empty ∨ ∃ c, s.entry h = some c ∧ c'.nickname = c.nickname := by
  rcases s.entry_apply_cases hc' with ⟨l, -, -, he⟩ | ⟨c, hc, hkeeps⟩
  · exact Or.inl (happend c' he)
  · rcases hkeeps.nickname with heq | he
    · exact Or.inr ⟨c, hc, heq⟩
    · exact absurd he (hstore h _)

theorem NicknamesUnique.acceptor (hs : NicknamesUnique s) {e : Effect} {pc₀ pc : AcceptorPc}
    (hacc : Acceptor.Step s pc₀ e pc) : NicknamesUnique { s.apply e with acceptor := pc } := by
  refine hs.of_sub (nickname_apply (fun h nick he => ?_) fun c he => ?_) fun h nick hp => ?_
  · subst he
    cases hacc
  · cases hacc with
    | appended _ =>
      cases he
      rfl
    | _ => cases he
  · change ((s.apply e).threads h).bind _ = _ at hp
    cases hacc with
    | @spawned h₀ me =>
      -- a new thread has no nickname
      change (Function.update s.threads h₀ _ h).bind _ = _ at hp
      by_cases hh : h = h₀
      · subst hh
        rw [Function.update_self] at hp
        cases hp
      · rwa [Function.update_of_ne hh] at hp
    | _ => exact hp

/-- The pending nicknames after a step of a client's thread. -/
theorem pending_update {e : Effect} {h₀ : Addr} {me : BitVec 64} {pc : Pc} (h : Addr) :
    ({ s.apply e with threads := Function.update s.threads h₀ (some ⟨me, pc⟩) } : State).pending h =
      if h = h₀ then pc.pending else s.pending h := by
  unfold State.pending
  by_cases hh : h = h₀
  · subst hh
    simp
  · simp [hh]

/-- The places where a thread finds its nickname free are the only ones that lead to a
pending one. -/
theorem pending_of_step {h : Addr} {me : BitVec 64} {b : ClientAction} {e : Effect} {pc₀ pc : Pc}
    (hcl : ClientThread.Step s h me pc₀ b e pc) {nick : CStr} (hp : pc.pending = some nick) :
    pc₀.pending = some nick ∨ pc₀ = .lookupNick nick := by
  cases hcl with
  | fault => exact Or.inl hp
  | move hmove => cases hmove <;> cases hp
  | read hmove => cases hmove <;> cases hp
  | @sent p => cases p <;> cases hp
  | @failed p => cases p <;> cases hp
  | nickFree _ _ =>
    cases hp
    exact Or.inr rfl
  | threadKnown => exact Or.inl hp
  | pushed hpush => cases hpush <;> cases hp
  | @freed site => cases site <;> cases hp
  | _ => cases hp

/-- Finding a nickname free, alone. -/
theorem NicknamesUnique.lookup (hs : NicknamesUnique s) (hhandles : Handles s) {h₀ : Addr}
    {me : BitVec 64} {nick : CStr} (ht : s.threads h₀ = some ⟨me, .lookupNick nick⟩)
    (halone : LooksUpAlone s (.client h₀ .go) = true) {l : ClientList} (hl : s.clients = some l)
    (hsearch : l.search (fun c => c.findByNickname nick) = none) :
    NicknamesUnique { s.apply .none with
      threads := Function.update s.threads h₀ (some ⟨me, .lookupThread nick⟩) } := by
  simp only [LooksUpAlone, ht, Bool.and_eq_true, decide_eq_true_eq, List.all_eq_true,
    List.mem_range, bne_iff_ne] at halone
  obtain ⟨hfits, hothers⟩ := halone
  -- nobody else is about to store it
  have hother : ∀ h, s.pending h ≠ some nick := by
    intro h hp
    obtain ⟨t, ht', -⟩ := Option.bind_eq_some_iff.mp hp
    exact hothers h (hhandles.bound h t ht' (by simp [hl])) hp
  -- and nobody has it
  have hfree : ∀ h c, s.entry h = some c → c.nickname ≠ nick := by
    intro h c hc heq
    have hmem : h ∈ l.ids := by
      have hreg := State.mem_registered.mpr ⟨c, hc⟩
      simpa [State.registered, hl] using hreg
    have hdata : l.data h = some c := by simpa [State.entry, hl] using hc
    have hnone := List.findIdx?_eq_none_iff.mp hsearch h hmem
    simp [hdata, heq, Client.findByNickname, strncmpEq] at hnone
  refine ⟨hs.unique, fun h nick' hp => ?_, fun h nick' hp hne h' c hc => ?_,
    fun h h' nick' hp hp' => ?_⟩
  · rw [pending_update] at hp
    split at hp
    · cases hp
      exact hfits
    · exact hs.fits h nick' hp
  · rw [pending_update] at hp
    split at hp
    · cases hp
      exact hfree h' c hc
    · exact hs.free h nick' hp hne h' c hc
  · rw [pending_update] at hp hp'
    split at hp
    · next hh =>
      cases hp
      split at hp'
      · next hh' => rw [hh, hh']
      · exact absurd hp' (hother h')
    · split at hp'
      · cases hp'
        exact absurd hp (hother h)
      · exact hs.alone h h' nick' hp hp'

/-- Storing the pending nickname. -/
theorem NicknamesUnique.store (hs : NicknamesUnique s) {h₀ : Addr} {me : BitVec 64} {nick : CStr}
    (ht : s.threads h₀ = some ⟨me, .storeNick nick⟩) :
    NicknamesUnique { s.apply (.setNickname h₀ (storedNickname nick)) with
      threads := Function.update s.threads h₀ (some ⟨me, .build .hello⟩) } := by
  have hpending : s.pending h₀ = some nick := by simp [State.pending, ht, Pc.pending]
  have hstored : storedNickname nick = nick := by
    have hlen := hs.fits h₀ nick hpending
    rw [storedNickname, List.take_of_length_le (by omega)]
    exact nick.ofBlock_bytes
  -- the entries: the one of this client has the new nickname, the others have their own
  have hentry : ∀ {h c'}, (s.apply (.setNickname h₀ (storedNickname nick))).entry h = some c' →
      (h = h₀ ∧ c'.nickname = nick) ∨ (h ≠ h₀ ∧ ∃ c, s.entry h = some c ∧ c'.nickname = c.nickname) := by
    intro h c' hc'
    change (s.modifyClient h₀ _).entry h = _ at hc'
    rw [State.entry_modifyClient] at hc'
    split at hc'
    · next hh =>
      obtain ⟨c, -, rfl⟩ := Option.map_eq_some_iff.mp hc'
      exact Or.inl ⟨hh, hstored⟩
    · next hh => exact Or.inr ⟨hh, c', hc', rfl⟩
  have hpend : ∀ {h nick'}, ({ s.apply (.setNickname h₀ (storedNickname nick)) with
      threads := Function.update s.threads h₀ (some ⟨me, .build .hello⟩) } : State).pending h =
        some nick' → h ≠ h₀ ∧ s.pending h = some nick' := by
    intro h nick' hp
    rw [pending_update] at hp
    split at hp
    · cases hp
    · next hh => exact ⟨hh, hp⟩
  refine ⟨fun h h' c c' hc hc' heq hne => ?_, fun h nick' hp => ?_,
    fun h nick' hp hne h' c hc => ?_, fun h h' nick' hp hp' => ?_⟩
  · rcases hentry hc with ⟨hh, hnick⟩ | ⟨-, d, hd, hnick⟩
    · rcases hentry hc' with ⟨hh', -⟩ | ⟨-, d', hd', hnick'⟩
      · rw [hh, hh']
      · exact absurd (by rw [← hnick', ← heq, hnick]) (hs.free h₀ nick hpending (hnick ▸ hne) h' d' hd')
    · rcases hentry hc' with ⟨-, hnick'⟩ | ⟨-, d', hd', hnick'⟩
      · refine absurd (by rw [← hnick, heq, hnick']) (hs.free h₀ nick hpending ?_ h d hd)
        rw [← hnick', ← heq]
        exact hne
      · exact hs.unique h h' d d' hd hd' (by rw [← hnick, ← hnick', heq]) (hnick ▸ hne)
  · exact hs.fits h nick' (hpend hp).2
  · obtain ⟨hh, hp⟩ := hpend hp
    rcases hentry hc with ⟨-, hnick⟩ | ⟨-, d, hd, hnick⟩
    · rw [hnick]
      rintro rfl
      exact hh (hs.alone h h₀ nick hp hpending)
    · rw [hnick]
      exact hs.free h nick' hp hne h' d hd
  · exact hs.alone h h' nick' (hpend hp).2 (hpend hp').2

theorem NicknamesUnique.client (hs : NicknamesUnique s) (hhandles : Handles s) {h₀ : Addr}
    {me : BitVec 64} {b : ClientAction} {e : Effect} {pc₀ pc : Pc}
    (ht : s.threads h₀ = some ⟨me, pc₀⟩) (halone : LooksUpAlone s (.client h₀ b) = true)
    (hcl : ClientThread.Step s h₀ me pc₀ b e pc) :
    NicknamesUnique
      { s.apply e with threads := Function.update s.threads h₀ (some ⟨me, pc⟩) } := by
  -- steps that neither look a nickname up nor store one
  have other : (∀ nick, pc₀ ≠ .lookupNick nick ∨ pc.pending = none) →
      (∀ h nick, e ≠ .setNickname h nick) → NicknamesUnique
        { s.apply e with threads := Function.update s.threads h₀ (some ⟨me, pc⟩) } := by
    intro hlookup hstore
    refine hs.of_sub (nickname_apply hstore fun c he => ?_) fun h nick hp => ?_
    · subst he
      cases hcl
    · rw [pending_update] at hp
      split at hp
      · next hh =>
        rcases pending_of_step hcl hp with hpending | hpc
        · simpa [State.pending, hh, ht] using hpending
        · rcases hlookup nick with hne | hnone
          · exact absurd hpc hne
          · rw [hnone] at hp
            cases hp
      · exact hp
  cases hcl with
  | nickFree hl hsearch => exact hs.lookup hhandles ht halone hl hsearch
  | stored _ => exact hs.store ht
  | fault => exact other (fun nick => (by cases pc₀ <;> simp [Pc.pending])) (by simp)
  | move hmove =>
    refine other (fun nick => ?_) (by simp)
    cases hmove <;> simp [Pc.pending]
  | read hmove =>
    refine other (fun nick => ?_) (by simp)
    cases hmove <;> simp [Pc.pending]
  | pushed hpush =>
    refine other (fun nick => ?_) (by simp)
    cases hpush <;> simp [Pc.pending]
  | _ => exact other (by simp) (by simp)

/-- **Nickname uniqueness** in every run where a nickname is looked up only while it is
pending for nobody else: no two registered clients have the same nickname. -/
theorem nickname_unique
    (hreach : Reachable (restrict step fun s a => LooksUpAlone s a = true) (.init n) s)
    {h h' : Addr} {c c' : Client} (hc : s.entry h = some c) (hc' : s.entry h' = some c')
    (heq : c.nickname = c'.nickname) (hne : c.nickname ≠ CStr.empty) : h = h' := by
  have hs : NicknamesUnique s := by
    refine hreach.invariant_restrict nicknamesUnique_init fun {s₁ a s₂} hr hs halone hstep => ?_
    cases step_taken hstep with
    | stop => exact ⟨hs.unique, hs.fits, hs.free, hs.alone⟩
    | acceptor _ hacc => exact hs.acceptor hacc
    | broadcast _ hbc =>
      refine hs.of_sub (nickname_apply (fun h nick he => ?_) fun c he => ?_) fun h nick hp => ?_
      · subst he
        cases hbc
      · subst he
        cases hbc
      · change ((s₁.apply _).threads h).bind _ = _ at hp
        rwa [s₁.apply_threads hbc.not_acceptorOnly] at hp
    | client ht hcl => exact hs.client (handles_of_reachable hr) ht halone hcl
  exact hs.unique h h' c c' hc hc' heq hne

/-- Joe and Ann have joined. -/
theorem nickname_unique_joeAndAnn :
    ∃ s c c', Reachable (restrict step fun s a => LooksUpAlone s a = true) (.init 2) s ∧
      s.entry 0 = some c ∧ s.entry 1 = some c' ∧ c.nickname = str "Joe" ∧
      c.nickname ≠ c'.nickname := by
  obtain ⟨s, hreach, hs⟩ : ∃ s,
      Reachable (restrict step fun s a => LooksUpAlone s a = true) (.init 2) s ∧
        ((s.entry 0).any (fun c => c.nickname == str "Joe") && (s.entry 1).isSome) = true :=
    Reachable.of_any Script.joeAndAnn (by decide +kernel)
  simp only [Bool.and_eq_true, Option.any_eq_true, beq_iff_eq, Option.isSome_iff_exists] at hs
  obtain ⟨⟨c, hc, hjoe⟩, c', hc'⟩ := hs
  refine ⟨s, c, c', hreach, hc, hc', hjoe, fun heq => ?_⟩
  have hne : c.nickname ≠ CStr.empty := by
    rw [hjoe]
    decide
  exact absurd (nickname_unique hreach hc hc' heq hne) (by decide)

/-- Two clients ask for the same nickname, both find it free, and both get it. -/
theorem not_nickname_unique_race :
    ∃ s c c', Reachable step (.init 2) s ∧ s.entry 0 = some c ∧ s.entry 1 = some c' ∧
      c.nickname = str "Joe" ∧ c'.nickname = str "Joe" := by
  obtain ⟨s, hreach, hs⟩ : ∃ s, Reachable step (.init 2) s ∧
      ((s.entry 0).any (fun c => c.nickname == str "Joe") &&
        (s.entry 1).any fun c => c.nickname == str "Joe") = true :=
    Reachable.of_any (Script.startUp ++ Script.connect 11 ++ Script.connect 12 ++
      Script.enter 0 (str "Joe") ++ Script.enter 1 (str "Joe") ++
      [.client 0 .go, .client 1 .go, .client 0 .go, .client 1 .go, .client 0 .go, .client 1 .go])
      (by decide +kernel)
  simp only [Bool.and_eq_true, Option.any_eq_true, beq_iff_eq] at hs
  obtain ⟨⟨c, hc, hjoe⟩, c', hc', hjoe'⟩ := hs
  exact ⟨s, c, c', hreach, hc, hc', hjoe, hjoe'⟩

/-! ### Valid nicknames -/

/-- The nickname that has passed the validation. -/
def Pc.validated : Pc → Option CStr
  | .lookupNick nick | .lookupThread nick | .storeNick nick => some nick
  | _ => none

/-- The library reports no error for a nickname that does not match. -/
def MatchesReliably (s : State) (a : Action) : Bool :=
  match a with
  | .client h (.regex .failed) =>
    match s.threads h with
    | some ⟨_, .validate nick⟩ => matchesNicknamePattern nick
    | _ => true
  | _ => true

/-- A nickname that may be in an entry. -/
def ValidNickname (nick : CStr) : Prop := nick = CStr.empty ∨ matchesNicknamePattern nick = true

/-- Nicknames match the pattern, also those that are going to be stored. -/
structure NicknamesValid (s : State) : Prop where
  entries : ∀ h c, s.entry h = some c → ValidNickname c.nickname
  validated : ∀ h t nick, s.threads h = some t → t.pc.validated = some nick →
    matchesNicknamePattern nick = true

theorem nicknamesValid_init : NicknamesValid (.init n) where
  entries h c hc := by cases hc
  validated h t nick ht := by cases ht

/-- A nickname that matches is stored as it is. -/
theorem storedNickname_eq {nick : CStr} (hnick : matchesNicknamePattern nick = true) :
    storedNickname nick = nick := by
  obtain ⟨-, -, hle⟩ := nickname_facts hnick
  rw [storedNickname, List.take_of_length_le (hle.trans (by decide))]
  exact nick.ofBlock_bytes

/-- The entries after a step that stores no nickname. -/
theorem NicknamesValid.entries_apply (hs : NicknamesValid s) {e : Effect}
    (hstore : ∀ h nick, e ≠ .setNickname h nick)
    (happend : ∀ c, e = .append c → c.nickname = CStr.empty) (h : Addr) (c' : Client)
    (hc' : (s.apply e).entry h = some c') : ValidNickname c'.nickname := by
  rcases nickname_apply hstore happend h c' hc' with hempty | ⟨c, hc, heq⟩
  · exact Or.inl hempty
  · rw [heq]
    exact hs.entries h c hc

/-- The validation. -/
theorem next_validate {h : Addr} {me : BitVec 64} {nick : CStr} {b : ClientAction} {e : Effect}
    {pc : Pc} (hnext : ClientThread.next s h ⟨me, .validate nick⟩ b = some (e, pc)) :
    ∃ result, b = .regex result ∧ result.agrees nick = true ∧
      pc = if Client.nicknameIsValid result then .lookupNick nick else .build .invalidNick := by
  unfold ClientThread.next at hnext
  cases b with
  | regex result =>
    dsimp only at hnext
    split at hnext
    · next hagrees =>
      cases hnext
      exact ⟨result, rfl, hagrees, rfl⟩
    · cases hnext
  | _ => cases hnext

/-- What passes the validation matches, when the library does not fail. -/
theorem matches_of_validate {h : Addr} {me : BitVec 64} {nick nick' : CStr} {b : ClientAction}
    {e : Effect} {pc : Pc} (ht : s.threads h = some ⟨me, .validate nick⟩)
    (hreliable : MatchesReliably s (.client h b) = true)
    (hnext : ClientThread.next s h ⟨me, .validate nick⟩ b = some (e, pc))
    (hpc : pc.validated = some nick') : matchesNicknamePattern nick' = true := by
  obtain ⟨result, rfl, hagrees, rfl⟩ := next_validate hnext
  cases result with
  | noMatch => cases hpc
  | matched =>
    cases hpc
    exact hagrees
  | failed =>
    cases hpc
    simpa [MatchesReliably, ht] using hreliable

/-- The validation is the only way to a nickname that has passed it. -/
theorem validated_of_step {h : Addr} {me : BitVec 64} {b : ClientAction} {e : Effect} {pc₀ pc : Pc}
    (hcl : ClientThread.Step s h me pc₀ b e pc) {nick : CStr} (hpc : pc.validated = some nick) :
    pc₀.validated = some nick ∨ pc₀ = .validate nick := by
  cases hcl with
  | fault => exact Or.inl hpc
  | move hmove =>
    cases hmove with
    | valid nick' =>
      cases hpc
      exact Or.inr rfl
    | _ => cases hpc
  | read hmove =>
    cases hmove with
    | valid nick' =>
      cases hpc
      exact Or.inr rfl
    | _ => cases hpc
  | @sent p => cases p <;> cases hpc
  | @failed p => cases p <;> cases hpc
  | nickFree _ _ => exact Or.inl hpc
  | threadKnown => exact Or.inl hpc
  | pushed hpush => cases hpush <;> cases hpc
  | @freed site => cases site <;> cases hpc
  | _ => cases hpc

theorem NicknamesValid.client (hs : NicknamesValid s) {h₀ : Addr} {me : BitVec 64}
    {b : ClientAction} {e : Effect} {pc₀ pc : Pc} (ht₀ : s.threads h₀ = some ⟨me, pc₀⟩)
    (hreliable : MatchesReliably s (.client h₀ b) = true)
    (hnext : ClientThread.next s h₀ ⟨me, pc₀⟩ b = some (e, pc))
    (hcl : ClientThread.Step s h₀ me pc₀ b e pc) :
    NicknamesValid
      { s.apply e with threads := Function.update s.threads h₀ (some ⟨me, pc⟩) } := by
  refine ⟨?_, fun h t nick ht hpc => ?_⟩
  · cases hcl with
    | @stored nick c hc =>
      have hnick := hs.validated h₀ _ nick ht₀ rfl
      intro h c' hc'
      change (s.modifyClient h₀ _).entry h = _ at hc'
      rw [State.entry_modifyClient] at hc'
      split at hc'
      · obtain ⟨c, -, rfl⟩ := Option.map_eq_some_iff.mp hc'
        exact Or.inr ((storedNickname_eq hnick).symm ▸ hnick)
      · exact hs.entries h c' hc'
    | _ => exact hs.entries_apply (by simp) (by simp)
  · rcases State.threads_update ht with ⟨rfl, rfl⟩ | ⟨-, ht⟩
    · rcases validated_of_step hcl hpc with hvalidated | rfl
      · exact hs.validated h _ nick ht₀ hvalidated
      · exact matches_of_validate ht₀ hreliable hnext hpc
    · exact hs.validated h t nick ht hpc

theorem NicknamesValid.acceptor (hs : NicknamesValid s) {e : Effect} {pc₀ pc : AcceptorPc}
    (hacc : Acceptor.Step s pc₀ e pc) : NicknamesValid { s.apply e with acceptor := pc } := by
  refine ⟨hs.entries_apply (fun h nick he => ?_) fun c he => ?_, fun h t nick ht hpc => ?_⟩
  · subst he
    cases hacc
  · cases hacc with
    | appended _ =>
      cases he
      rfl
    | _ => cases he
  · change (s.apply e).threads h = some t at ht
    cases hacc with
    | @spawned h₀ me =>
      rcases State.threads_update ht with ⟨rfl, rfl⟩ | ⟨-, ht⟩
      · cases hpc
      · exact hs.validated h t nick ht hpc
    | _ => exact hs.validated h t nick ht hpc

end C2Hat
