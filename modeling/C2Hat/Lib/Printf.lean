import C2Hat.Lib.CString

/-!
# The printf family

The formats of interest take strings only, so an argument list is a list of C
strings.  A format is copied literally except for its conversion specifications,
each of which is introduced by a percent sign: `%%` stands for a percent sign,
`%s` for the next argument.  Anything else behind a percent sign (a conversion of
another type, or no conversion at all) has no defined meaning for such an
argument list, and neither has `%s` when the arguments have run out.

## Main results

* `expand_literal_append`, `expand_string` — how a format is consumed.
* `length_expand_nil_args` — a text used as its own format shrinks when it has a
  percent sign.
-/

namespace Clib

/-- A mapped computation succeeds when the computation does. -/
theorem map_eq_ok {ε α β : Type*} {x : Except ε α} {f : α → β} {b : β} :
    x.map f = .ok b ↔ ∃ a, x = .ok a ∧ f a = b := by
  cases x <;> simp [Except.map]

theorem mapError_eq_ok {ε ε' α : Type*} {x : Except ε α} {f : ε → ε'} {a : α} :
    x.mapError f = .ok a ↔ x = .ok a := by
  cases x <;> simp [Except.mapError]

theorem bind_eq_ok {ε α β : Type} {x : Except ε α} {f : α → Except ε β} {b : β} :
    (x >>= f) = .ok b ↔ ∃ a, x = .ok a ∧ f a = .ok b := by
  cases x with
  | error e => simp [bind, Except.bind]
  | ok a => simp [bind, Except.bind]

/-- The percent sign. -/
abbrev percent : UInt8 := 37

/-- The text a format describes, before it is truncated to a buffer. -/
def expand : Bytes → List CStr → Except Fault Bytes
  | [], _ => .ok []
  | [c], _ => if c = percent then .error .badFormat else .ok [c]
  | c :: d :: fmt, args =>
    if c ≠ percent then (expand (d :: fmt) args).map (c :: ·)
    else if d = percent then (expand fmt args).map (percent :: ·)
    else if d = 115 then
      match args with
      | a :: as => (expand fmt as).map (a.bytes ++ ·)
      | [] => .error .badFormat
    else .error .badFormat

/-- `vsnprintf(buffer, size, fmt, args)`: what the buffer holds afterwards. -/
def vsnprintf (size : ℕ) (fmt : Bytes) (args : List CStr) : Except Fault CStr :=
  (expand fmt args).map fun text => CStr.ofBlock (text.take (size - 1))

@[simp] theorem expand_nil (args : List CStr) : expand [] args = .ok [] := rfl

theorem expand_cons_of_ne {c : UInt8} (hc : c ≠ percent) (fmt : Bytes) (args : List CStr) :
    expand (c :: fmt) args = (expand fmt args).map (c :: ·) := by
  cases fmt with
  | nil => simp only [expand, if_neg hc]; rfl
  | cons d fmt => simp only [expand, if_pos hc]

/-- The part of a format in front of its first percent sign is copied. -/
theorem expand_literal_append {s : Bytes} (hs : percent ∉ s) (fmt : Bytes) (args : List CStr) :
    expand (s ++ fmt) args = (expand fmt args).map (s ++ ·) := by
  induction s with
  | nil => cases h : expand fmt args <;> simp [h, Except.map]
  | cons c s ih =>
    rw [List.mem_cons, not_or] at hs
    rw [List.cons_append, expand_cons_of_ne (Ne.symm hs.1), ih hs.2]
    cases h : expand fmt args <;> simp [Except.map]

theorem expand_literal {s : Bytes} (hs : percent ∉ s) (args : List CStr) :
    expand s args = .ok s := by
  have h := expand_literal_append hs [] args
  simpa [Except.map] using h

/-- `%s` consumes one argument. -/
theorem expand_string (a : CStr) (as : List CStr) (fmt : Bytes) :
    expand (percent :: 115 :: fmt) (a :: as) = (expand fmt as).map (a.bytes ++ ·) := by
  simp only [expand, ne_eq, not_true_eq_false, if_false, if_true]
  rw [if_neg (by decide)]

theorem expand_percent_percent (fmt : Bytes) (args : List CStr) :
    expand (percent :: percent :: fmt) args = (expand fmt args).map (percent :: ·) := by
  simp [expand]

/-- Without arguments the text never grows, and it shrinks as soon as a percent
sign is in it: `%%` is the only specification that means anything, and two bytes
become one. -/
theorem length_expand_nil_args : ∀ {fmt text : Bytes}, expand fmt [] = .ok text →
    text.length ≤ fmt.length ∧ (percent ∈ fmt → text.length < fmt.length)
  | [], text, h => by
    cases h
    simp
  | [c], text, h => by
    by_cases hc : c = percent
    · simp [expand, hc] at h
    · rw [expand_cons_of_ne hc] at h
      cases h
      simp [Ne.symm hc]
  | c :: d :: fmt, text, h => by
    by_cases hc : c = percent
    · by_cases hd : d = percent
      · subst hc hd
        rw [expand_percent_percent] at h
        obtain ⟨u, hu, rfl⟩ := map_eq_ok.mp h
        have ih := length_expand_nil_args hu
        simp only [List.length_cons]
        omega
      · simp [expand, hc, hd] at h
    · rw [expand_cons_of_ne hc] at h
      obtain ⟨u, hu, rfl⟩ := map_eq_ok.mp h
      obtain ⟨hle, hlt⟩ := length_expand_nil_args hu
      refine ⟨Nat.succ_le_succ hle, fun hmem => Nat.succ_lt_succ (hlt ?_)⟩
      exact (List.mem_cons.mp hmem).resolve_left (Ne.symm hc)

/-- Literal text and arguments bring no terminator in. -/
theorem nulFree_expand : ∀ {fmt : Bytes} {args : List CStr} {text : Bytes},
    (0 : UInt8) ∉ fmt → expand fmt args = .ok text → (0 : UInt8) ∉ text
  | [], _, text, _, h => by
    cases h
    simp
  | [c], args, text, hf, h => by
    by_cases hc : c = percent
    · simp [expand, hc] at h
    · rw [expand_cons_of_ne hc] at h
      cases h
      exact hf
  | c :: d :: fmt, args, text, hf, h => by
    simp only [List.mem_cons, not_or] at hf
    by_cases hc : c = percent
    · by_cases hd : d = percent
      · subst hc hd
        rw [expand_percent_percent] at h
        obtain ⟨u, hu, rfl⟩ := map_eq_ok.mp h
        have ih := nulFree_expand hf.2.2 hu
        simp [ih, hf.1]
      · by_cases hs : d = 115
        · subst hc hs
          cases args with
          | nil => simp [expand, hd] at h
          | cons a as =>
            rw [expand_string] at h
            obtain ⟨u, hu, rfl⟩ := map_eq_ok.mp h
            have ih := nulFree_expand hf.2.2 hu
            simp [ih, a.nulFree]
        · simp [expand, hc, hd, hs] at h
    · rw [expand_cons_of_ne hc] at h
      obtain ⟨u, hu, rfl⟩ := map_eq_ok.mp h
      have ih := nulFree_expand (by simp [hf.2.1, hf.2.2]) hu
      simp [ih, hf.1]

/-- The buffer holds the first `size - 1` bytes of the text. -/
theorem vsnprintf_eq_ok (size : ℕ) {fmt : Bytes} {args : List CStr} {text : Bytes}
    (hf : (0 : UInt8) ∉ fmt) (h : expand fmt args = .ok text) :
    ∃ buffer, vsnprintf size fmt args = .ok buffer ∧ buffer.bytes = text.take (size - 1) := by
  have hnul : (0 : UInt8) ∉ text.take (size - 1) :=
    fun hm => nulFree_expand hf h (List.mem_of_mem_take hm)
  exact ⟨_, by rw [vsnprintf, h]; rfl, CStr.bytes_ofBlock_of_nulFree hnul⟩

end Clib
