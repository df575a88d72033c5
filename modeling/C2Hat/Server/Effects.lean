import C2Hat.Server.Steps

/-!
# Effects on the shared data

What each effect does to the parts of the state that invariants speak of: the
entries of the list of clients, the handles that are registered and the cursor, the
threads, the queue and the trace.  The proofs about runs use these lemmas instead of
the list and the queue themselves.

## Main results

* `entry_apply_cases` — where an entry that is there after a step comes from.
* `registered_apply`, `cursor_apply` — the list and its cursor after a step.
-/

namespace C2Hat

open Clib

/-- What an effect writes to the entry of client `h`. -/
def Effect.write (h : Addr) (c : Client) : Effect → Client
  | .setThreadID x t => if h = x then { c with threadID := t } else c
  | .setNickname x n => if h = x then { c with nickname := n } else c
  | .setBuffer x b => if h = x then { c with buffer := b } else c
  | .freeSsl x | .remove x _ => if h = x then { c with ssl := .freed } else c
  | _ => c

/-- What an effect leaves of the entry of client `h`: the socket, a freed connection
and, unless the effect stores it, the nickname. -/
structure Effect.Keeps (e : Effect) (h : Addr) (c c' : Client) : Prop where
  socket : c'.socket = c.socket
  freed : c.ssl = .freed → c'.ssl = .freed
  nickname : c'.nickname = c.nickname ∨ e = .setNickname h c'.nickname

namespace State

variable {s : State} {h : Addr}

/-! ### Parts that effects leave alone -/

@[simp] theorem apply_terminate (s : State) (e : Effect) :
    (s.apply e).terminate = s.terminate := by
  cases e <;> try rfl
  simp only [apply]
  split <;> rfl

@[simp] theorem apply_maxConnections (s : State) (e : Effect) :
    (s.apply e).maxConnections = s.maxConnections := by
  cases e <;> try rfl
  simp only [apply]
  split <;> rfl

@[simp] theorem apply_acceptor (s : State) (e : Effect) : (s.apply e).acceptor = s.acceptor := by
  cases e <;> try rfl
  simp only [apply]
  split <;> rfl

@[simp] theorem apply_broadcast (s : State) (e : Effect) :
    (s.apply e).broadcast = s.broadcast := by
  cases e <;> try rfl
  simp only [apply]
  split <;> rfl

/-- Only the acceptor creates threads. -/
theorem apply_threads {e : Effect} (he : e.acceptorOnly = false) :
    (s.apply e).threads = s.threads := by
  cases e with
  | spawn h me => cases he
  | push m =>
    simp only [apply]
    split <;> rfl
  | _ => rfl

/-- The threads when one of them is created or has moved. -/
theorem threads_update {threads : Addr → Option Thread} {h₀ : Addr} {t₀ t : Thread}
    (ht : Function.update threads h₀ (some t₀) h = some t) :
    (h = h₀ ∧ t = t₀) ∨ (h ≠ h₀ ∧ threads h = some t) := by
  by_cases hh : h = h₀
  · subst hh
    rw [Function.update_self] at ht
    exact Or.inl ⟨rfl, (Option.some.inj ht).symm⟩
  · rw [Function.update_of_ne hh] at ht
    exact Or.inr ⟨hh, ht⟩

/-- Pushing a message does not touch the clients. -/
theorem clients_push (s : State) (m : C2HMessage) :
    (s.apply (.push m)).clients = s.clients := by
  simp only [apply]
  split <;> rfl

/-- The list of clients exists from its creation to its end. -/
theorem isSome_apply {e : Effect} (hnew : e ≠ .newList) (hfree : e ≠ .freeList) :
    (s.apply e).clients.isSome = s.clients.isSome := by
  cases e with
  | newList => exact absurd rfl hnew
  | freeList => exact absurd rfl hfree
  | push m => rw [clients_push]
  | append | remove | rewind | advance => simp [apply]
  | setThreadID | setNickname | setBuffer | freeSsl => simp [apply, modifyClient, record]
  | _ => rfl

/-! ### Entries -/

theorem mem_registered : h ∈ s.registered ↔ ∃ c, s.entry h = some c := by
  cases hc : s.clients with
  | none => simp [registered, entry, hc]
  | some l => simp [registered, entry, hc, l.mem_ids_iff]

theorem entry_modifyClient (s : State) (x : Addr) (f : Client → Client) (h : Addr) :
    (s.modifyClient x f).entry h = if h = x then (s.entry h).map f else s.entry h := by
  cases hc : s.clients with
  | none => simp [modifyClient, entry, hc]
  | some l => simp [modifyClient, entry, hc]

theorem entry_remove (s : State) (x : Addr) (i : ℕ) (h : Addr) :
    (s.apply (.remove x i)).entry h =
      if s.registered[i]? = some h then none
      else if h = x then (s.entry h).map fun c => { c with ssl := .freed } else s.entry h := by
  cases hc : s.clients with
  | none => simp [apply, entry, registered, hc]
  | some l => simp [apply, entry, registered, hc]

theorem entry_append {l : ClientList} (hl : s.clients = some l) (c : Client) (h : Addr) :
    (s.apply (.append c)).entry h = if h = l.list.fresh then some c else s.entry h := by
  simp [apply, entry, hl]

/-- An entry that is there after a step is a new one, or it was there before. -/
theorem entry_apply_write {e : Effect} {c' : Client} (hc' : (s.apply e).entry h = some c') :
    (∃ l, s.clients = some l ∧ h = l.list.fresh ∧ e = .append c') ∨
      ∃ c, s.entry h = some c ∧ c' = e.write h c := by
  have modified : ∀ {x} {f : Client → Client}, (s.modifyClient x f).entry h = some c' →
      ∃ c, s.entry h = some c ∧ c' = if h = x then f c else c := by
    intro x f hentry
    rw [entry_modifyClient] at hentry
    split at hentry
    · next hx =>
      obtain ⟨c, hc, rfl⟩ := Option.map_eq_some_iff.mp hentry
      exact ⟨c, hc, by rw [if_pos hx]⟩
    · next hx => exact ⟨c', hentry, by rw [if_neg hx]⟩
  cases e with
  | newList =>
    simp [apply, entry, Linked.new, Linked.data, CList.new, CList.content] at hc'
  | freeList => simp [apply, entry] at hc'
  | append c =>
    cases hl : s.clients with
    | none => simp [apply, entry, hl] at hc'
    | some l =>
      rw [entry_append hl] at hc'
      split at hc'
      · next hfresh =>
        cases hc'
        exact Or.inl ⟨l, rfl, hfresh, rfl⟩
      · exact Or.inr ⟨c', hc', rfl⟩
  | setThreadID | setNickname | setBuffer | freeSsl => exact Or.inr (modified hc')
  | remove x i =>
    rw [entry_remove] at hc'
    split at hc'
    · cases hc'
    · rw [← entry_modifyClient] at hc'
      exact Or.inr (modified hc')
  | rewind =>
    refine Or.inr ⟨c', ?_, rfl⟩
    cases hl : s.clients with
    | none => simp [apply, entry, hl] at hc'
    | some l => simpa [apply, entry, hl] using hc'
  | advance c =>
    refine Or.inr ⟨c', ?_, rfl⟩
    cases hl : s.clients with
    | none => simp [apply, entry, hl] at hc'
    | some l => simpa [apply, entry, hl] using hc'
  | push m =>
    rw [entry, clients_push] at hc'
    exact Or.inr ⟨c', hc', rfl⟩
  | _ => exact Or.inr ⟨c', hc', rfl⟩

theorem keeps_write (e : Effect) (h : Addr) (c : Client) : e.Keeps h c (e.write h c) := by
  unfold Effect.write
  cases e with
  | setNickname x n =>
    by_cases hx : h = x
    · subst hx
      exact ⟨by simp, by simp, Or.inr (by simp)⟩
    · exact ⟨by simp [hx], by simp [hx], Or.inl (by simp [hx])⟩
  | setThreadID x | setBuffer x | freeSsl x | remove x =>
    by_cases hx : h = x
    · exact ⟨by simp [hx], by simp [hx], Or.inl (by simp [hx])⟩
    · exact ⟨by simp [hx], by simp [hx], Or.inl (by simp [hx])⟩
  | _ => exact ⟨rfl, id, Or.inl rfl⟩

/-- **Where entries come from**: an entry that is there after a step is a new one, or
it was there before. -/
theorem entry_apply_cases {e : Effect} {c' : Client} (hc' : (s.apply e).entry h = some c') :
    (∃ l, s.clients = some l ∧ h = l.list.fresh ∧ e = .append c') ∨
      ∃ c, s.entry h = some c ∧ e.Keeps h c c' := by
  rcases s.entry_apply_write hc' with hnew | ⟨c, hc, rfl⟩
  · exact Or.inl hnew
  · exact Or.inr ⟨c, hc, keeps_write e h c⟩

/-! ### The list and its cursor -/

/-- The address of the next entry. -/
def fresh (s : State) : Addr := s.clients.elim 0 fun l => l.list.fresh

end State

/-- The effects on the list of clients itself; the others at most write to an entry. -/
def Effect.onList : Effect → Bool
  | .newList | .freeList | .append _ | .rewind | .advance _ | .remove _ _ => true
  | _ => false

namespace State

variable {s : State} {h : Addr}

theorem list_modifyClient (s : State) (x : Addr) (f : Client → Client) :
    (s.modifyClient x f).registered = s.registered ∧ (s.modifyClient x f).cursor = s.cursor ∧
      (s.modifyClient x f).fresh = s.fresh := by
  cases hc : s.clients with
  | none => simp [modifyClient, registered, cursor, fresh, hc]
  | some l => simp [modifyClient, registered, cursor, fresh, hc]

/-- What an effect on something else leaves of the list: all of it. -/
theorem list_apply {e : Effect} (he : e.onList = false) :
    (s.apply e).registered = s.registered ∧ (s.apply e).cursor = s.cursor ∧
      (s.apply e).fresh = s.fresh := by
  cases e with
  | newList | freeList | append | rewind | advance | remove => simp [Effect.onList] at he
  | setThreadID x t => exact s.list_modifyClient x _
  | setNickname x n => exact s.list_modifyClient x _
  | setBuffer x b => exact s.list_modifyClient x _
  | freeSsl x => exact s.list_modifyClient x _
  | push m =>
    simp only [registered, cursor, fresh, clients_push]
    exact ⟨trivial, trivial, trivial⟩
  | _ => exact ⟨rfl, rfl, rfl⟩

@[simp] theorem registered_remove (s : State) (x : Addr) (i : ℕ) :
    (s.apply (.remove x i)).registered = s.registered.eraseIdx i := by
  cases hc : s.clients with
  | none => simp [apply, registered, hc]
  | some l => simp [apply, registered, hc]

@[simp] theorem cursor_remove (s : State) (x : Addr) (i : ℕ) :
    (s.apply (.remove x i)).cursor =
      if i = 0 ∧ s.registered ≠ [] then s.registered[1]? else s.cursor := by
  cases hc : s.clients with
  | none => simp [apply, registered, cursor, hc]
  | some l => simp [apply, registered, cursor, hc]

theorem registered_append {l : ClientList} (hl : s.clients = some l) (c : Client) :
    (s.apply (.append c)).registered = s.registered ++ [s.fresh] := by
  simp [apply, registered, fresh, hl]

theorem cursor_append {l : ClientList} (hl : s.clients = some l) (c : Client) :
    (s.apply (.append c)).cursor = if s.registered = [] then some s.fresh else s.cursor := by
  simp [apply, registered, cursor, fresh, hl]

@[simp] theorem registered_rewind (s : State) :
    (s.apply .rewind).registered = s.registered := by
  cases hc : s.clients with
  | none => simp [apply, registered, hc]
  | some l => simp [apply, registered, hc]

@[simp] theorem cursor_rewind (s : State) :
    (s.apply .rewind).cursor = if s.registered = [] then s.cursor else s.registered.head? := by
  cases hc : s.clients with
  | none => simp [apply, registered, cursor, hc]
  | some l => simp [apply, registered, cursor, hc]

@[simp] theorem registered_advance (s : State) (c : Option Addr) :
    (s.apply (.advance c)).registered = s.registered := by
  cases hc : s.clients with
  | none => simp [apply, registered, hc]
  | some l => simp [apply, registered, hc]

theorem cursor_advance {l : ClientList} (hl : s.clients = some l) (c : Option Addr) :
    (s.apply (.advance c)).cursor = c := by
  simp [apply, cursor, hl]

/-- Only `List_append` makes the list longer. -/
theorem length_registered_apply_le {e : Effect} (happend : ∀ c, e ≠ .append c) :
    (s.apply e).registered.length ≤ s.registered.length := by
  cases he : e.onList with
  | false => rw [(list_apply he).1]
  | true =>
    cases e with
    | append c => exact absurd rfl (happend c)
    | newList => simp [apply, registered, Linked.new]
    | freeList => simp [apply, registered]
    | rewind => rw [registered_rewind]
    | advance c => rw [registered_advance]
    | remove h i =>
      rw [registered_remove]
      exact (List.eraseIdx_sublist _ _).length_le
    | _ => cases he

theorem nodup_registered (s : State) : s.registered.Nodup := by
  cases hc : s.clients with
  | none => simp [registered, hc]
  | some l => simpa [registered, hc] using l.repr.nodup

theorem lt_fresh_of_registered (hh : h ∈ s.registered) : h < s.fresh := by
  cases hc : s.clients with
  | none => simp [registered, hc] at hh
  | some l =>
    simp only [registered, fresh, hc, Option.elim_some] at hh ⊢
    exact l.repr.bound h hh

/-- Addresses are not used again. -/
theorem fresh_le_apply {e : Effect} (hnew : e ≠ .newList) (hfree : e ≠ .freeList) :
    s.fresh ≤ (s.apply e).fresh := by
  cases he : e.onList with
  | false => exact le_of_eq (list_apply he).2.2.symm
  | true =>
    cases hc : s.clients with
    | none => simp [fresh, hc]
    | some l =>
      cases e <;> simp_all [Effect.onList, apply, fresh]

/-! ### The trace -/

end State

/-- What an effect records. -/
def Effect.events (queue : Option (Fifo C2HMessage)) : Effect → List Event
  | .push m => if queue.isSome then [.pushed m] else []
  | .pop m _ => [.popped m]
  | .setNickname h _ => [.stored h]
  | .wrote h who m bytes last => [.wrote h who m bytes last]
  | _ => []

namespace State

theorem trace_apply (s : State) (e : Effect) :
    (s.apply e).trace = s.trace ++ e.events s.messages := by
  cases e with
  | push m =>
    cases hq : s.messages with
    | none => simp [apply, CQueue.push, hq, Effect.events]
    | some f => simp [apply, CQueue.push, hq, Effect.events, record]
  | pop | setNickname | wrote => rfl
  | _ => simp [apply, Effect.events, modifyClient]

/-- The queue changes by `push`, `pop` and at both ends of its life only. -/
theorem messages_apply {s : State} {e : Effect} (hpush : ∀ m, e ≠ .push m)
    (hpop : ∀ m rest, e ≠ .pop m rest) (hnew : e ≠ .newQueue) (hfree : e ≠ .freeQueue) :
    (s.apply e).messages = s.messages := by
  cases e with
  | push m => exact absurd rfl (hpush m)
  | pop m rest => exact absurd rfl (hpop m rest)
  | newQueue => exact absurd rfl hnew
  | freeQueue => exact absurd rfl hfree
  | _ => rfl

end State

end C2Hat
