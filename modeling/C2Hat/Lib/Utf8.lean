import C2Hat.Lib.Terminated

/-!
# Wide characters in UTF-8

The conversion of wide strings in a UTF-8 locale.  `wcstombs` writes whole characters as long as
they fit, and a terminator when there is a byte left for it.

## Main definitions

* `utf8Encode` — the bytes of a character.
* `encodeAll`, `encodeFront` — the bytes of a text, and of what can be converted of it.
* `wcstombs` — the conversion.

## Main results

* `length_utf8Encode`, `nul_notMem_utf8Encode` — a character has one to four bytes, which are not
  zero.
* `nul_mem_wcstombs_iff` — **when a cleared array holds a terminator after the conversion.**
* `wcstombs_of_room` — the bytes of a text that has room.
-/

namespace Clib

/-- The bytes of a wide character, of which surrogates and large numbers have none. -/
def utf8Encode (c : WChar) : Option Bytes :=
  let n := c.toNat
  if n < 0x80 then some [UInt8.ofNat n]
  else if n < 0x800 then some [UInt8.ofNat (0xC0 + n / 64), UInt8.ofNat (0x80 + n % 64)]
  else if n < 0x10000 then
    if 0xD800 ≤ n ∧ n < 0xE000 then none
    else some [UInt8.ofNat (0xE0 + n / 4096), UInt8.ofNat (0x80 + n / 64 % 64),
      UInt8.ofNat (0x80 + n % 64)]
  else if n < 0x110000 then
    some [UInt8.ofNat (0xF0 + n / 262144), UInt8.ofNat (0x80 + n / 4096 % 64),
      UInt8.ofNat (0x80 + n / 64 % 64), UInt8.ofNat (0x80 + n % 64)]
  else none

/-- The bytes of a text, if all its characters have some. -/
def encodeAll : List WChar → Option Bytes
  | [] => some []
  | c :: s => (utf8Encode c).bind fun bytes => (encodeAll s).map (bytes ++ ·)

/-- What `wcstombs` writes where there is room for that many bytes.  It stops at a character that
does not fit, and at one that has no bytes. -/
def encodeUpTo : ℕ → List WChar → Bytes
  | room, [] => if 0 < room then [0] else []
  | room, c :: s =>
    match utf8Encode c with
    | none => []
    | some bytes =>
      if bytes.length ≤ room then bytes ++ encodeUpTo (room - bytes.length) s else []

/-- `wcstombs(dest, src, n)`: the array afterwards. -/
def wcstombs (dest : Bytes) (src : List WChar) (n : ℕ) : Bytes :=
  let written := encodeUpTo n (WStr.ofBlock src).chars
  written ++ dest.drop written.length

/-- A character has one to four bytes. -/
theorem length_utf8Encode {c : WChar} {bytes : Bytes} (h : utf8Encode c = some bytes) :
    0 < bytes.length ∧ bytes.length ≤ 4 := by
  unfold utf8Encode at h
  simp only at h
  split_ifs at h
  all_goals
    cases h
    simp

theorem ofNat_ne_zero {n : ℕ} (hpos : 0 < n) (hlt : n < 256) : (0 : UInt8) ≠ UInt8.ofNat n := by
  intro heq
  have hmod := congrArg UInt8.toNat heq
  rw [UInt8.toNat_ofNat', Nat.mod_eq_of_lt hlt] at hmod
  exact hpos.ne hmod

/-- They are not zero, unless it is the terminator. -/
theorem nul_notMem_utf8Encode {c : WChar} (hc : c ≠ 0) {bytes : Bytes}
    (h : utf8Encode c = some bytes) : (0 : UInt8) ∉ bytes := by
  have hpos : c.toNat ≠ 0 := fun hzero => hc (UInt32.toNat_inj.mp hzero)
  have hbyte : ∀ n : ℕ, 0 < n ∧ n < 256 → ¬ (0 : UInt8) = UInt8.ofNat n :=
    fun n hn => ofNat_ne_zero hn.1 hn.2
  unfold utf8Encode at h
  simp only at h
  split_ifs at h
  all_goals
    cases h
    simp only [List.mem_cons, List.not_mem_nil, or_false, not_or]
  · exact hbyte _ (by omega)
  · exact ⟨hbyte _ (by omega), hbyte _ (by omega)⟩
  · exact ⟨hbyte _ (by omega), hbyte _ (by omega), hbyte _ (by omega)⟩
  · exact ⟨hbyte _ (by omega), hbyte _ (by omega), hbyte _ (by omega), hbyte _ (by omega)⟩

/-- A text has at most four bytes for each character. -/
theorem length_encodeAll {s : List WChar} {bytes : Bytes} (h : encodeAll s = some bytes) :
    bytes.length ≤ 4 * s.length := by
  induction s generalizing bytes with
  | nil =>
    cases h
    exact Nat.zero_le _
  | cons c s ih =>
    obtain ⟨first, hfirst, hrest⟩ := Option.bind_eq_some_iff.mp h
    obtain ⟨rest, hs, rfl⟩ := Option.map_eq_some_iff.mp hrest
    have hlen := (length_utf8Encode hfirst).2
    have hall := ih hs
    rw [List.length_append, List.length_cons]
    omega

theorem length_encodeUpTo (room : ℕ) (s : List WChar) : (encodeUpTo room s).length ≤ room := by
  induction s generalizing room with
  | nil =>
    rw [encodeUpTo]
    split_ifs with hroom
    · exact hroom
    · exact Nat.zero_le _
  | cons c s ih =>
    rw [encodeUpTo]
    cases utf8Encode c with
    | none => exact Nat.zero_le _
    | some bytes =>
      simp only
      split_ifs with hfits
      · have htail := ih (room - bytes.length)
        rw [List.length_append]
        omega
      · exact Nat.zero_le _

/-- What holds of all the fronts of a list: of the empty one, and of those with the first
element. -/
theorem forall_prefix_cons_iff {α : Type} {p : List α → Prop} (c : α) (s : List α) :
    (∀ front, front <+: c :: s → p front) ↔ p [] ∧ ∀ front, front <+: s → p (c :: front) := by
  constructor
  · intro hall
    refine ⟨hall [] List.nil_prefix, fun front hfront => hall (c :: front) ?_⟩
    exact (List.prefix_cons_inj c).mpr hfront
  · rintro ⟨hnil, hcons⟩ front hfront
    rcases List.prefix_cons_iff.mp hfront with rfl | ⟨tail, rfl, htail⟩
    · exact hnil
    · exact hcons tail htail

/-- The bytes of a text behind its first character. -/
theorem encodeAll_cons_iff {c : WChar} {first bytes : Bytes} (hc : utf8Encode c = some first)
    (s : List WChar) :
    encodeAll (c :: s) = some bytes ↔ ∃ rest, encodeAll s = some rest ∧ first ++ rest = bytes := by
  rw [encodeAll, hc, Option.bind_some, Option.map_eq_some_iff]

/-- A character that fits takes its bytes from the room for the others. -/
theorem nul_mem_encodeUpTo_cons_iff {c : WChar} (hc : c ≠ 0) {first : Bytes}
    (hfirst : utf8Encode c = some first) {room : ℕ} (hfits : first.length ≤ room)
    (s : List WChar) :
    (0 : UInt8) ∈ encodeUpTo room (c :: s) ∨ (encodeUpTo room (c :: s)).length < room ↔
      0 ∈ encodeUpTo (room - first.length) s ∨
        (encodeUpTo (room - first.length) s).length < room - first.length := by
  have hnul := nul_notMem_utf8Encode hc hfirst
  rw [encodeUpTo, hfirst]
  simp only [if_pos hfits, List.mem_append, List.length_append, hnul, false_or]
  constructor
  · rintro (hmem | hlt)
    · exact .inl hmem
    · exact .inr (by omega)
  · rintro (hmem | hlt)
    · exact .inl hmem
    · exact .inr (by omega)

/-- **The conversion leaves room for a terminator, or writes it**, unless the characters in front
of some place take up exactly the room there is. -/
theorem nul_mem_encodeUpTo_iff {s : List WChar} (hs : (0 : WChar) ∉ s) (room : ℕ) :
    (0 : UInt8) ∈ encodeUpTo room s ∨ (encodeUpTo room s).length < room ↔
      ∀ front, front <+: s → ∀ bytes, encodeAll front = some bytes → bytes.length ≠ room := by
  induction s generalizing room with
  | nil =>
    rw [encodeUpTo]
    constructor
    · intro hnul front hfront bytes hbytes
      obtain rfl := List.prefix_nil.mp hfront
      cases hbytes
      rintro rfl
      simp at hnul
    · intro hall
      have hpos : 0 < room := Nat.pos_of_ne_zero (Ne.symm (hall [] List.nil_prefix [] rfl))
      rw [if_pos hpos]
      exact .inl (List.mem_singleton_self 0)
  | cons c s ih =>
    rw [List.mem_cons, not_or] at hs
    have hempty : (∀ bytes, encodeAll [] = some bytes → bytes.length ≠ room) ↔ 0 < room := by
      constructor
      · intro hall
        exact Nat.pos_of_ne_zero (Ne.symm (hall [] rfl))
      · rintro hroom bytes hbytes
        cases hbytes
        exact hroom.ne
    rw [forall_prefix_cons_iff, hempty]
    cases hc : utf8Encode c with
    | none =>
      -- nothing is written
      have hnone : ∀ front, encodeAll (c :: front) = none := by
        intro front
        rw [encodeAll, hc, Option.bind_none]
      simp [encodeUpTo, hc, hnone]
    | some first =>
      obtain ⟨hpos, -⟩ := length_utf8Encode hc
      simp only [encodeAll_cons_iff hc]
      by_cases hfits : first.length ≤ room
      · rw [nul_mem_encodeUpTo_cons_iff (Ne.symm hs.1) hc hfits, ih hs.2]
        constructor
        · intro hall
          refine ⟨by omega, ?_⟩
          rintro front hfront _ ⟨rest, hrest, rfl⟩
          have hne := hall front hfront rest hrest
          rw [List.length_append]
          omega
        · rintro ⟨-, hall⟩ front hfront rest hrest
          have hne := hall front hfront (first ++ rest) ⟨rest, hrest, rfl⟩
          rw [List.length_append] at hne
          omega
      · -- nothing is written, and the character alone would have been too long
        rw [encodeUpTo, hc]
        simp only [if_neg hfits, List.not_mem_nil, false_or, List.length_nil]
        refine ⟨fun hroom => ⟨hroom, ?_⟩, And.left⟩
        rintro front - _ ⟨rest, -, rfl⟩
        rw [List.length_append]
        omega

/-- The array keeps its size. -/
theorem length_wcstombs (dest : Bytes) (src : List WChar) {n : ℕ} (h : n ≤ dest.length) :
    (wcstombs dest src n).length = dest.length := by
  have hle := length_encodeUpTo n (WStr.ofBlock src).chars
  rw [wcstombs, List.length_append, List.length_drop]
  omega

/-- **A cleared array holds a terminator after the conversion** of a text that may take up all of
it, unless the characters in front of some place do so exactly. -/
theorem nul_mem_wcstombs_iff {s : List WChar} (hs : (0 : WChar) ∉ s) (rest : List WChar) (n : ℕ) :
    (0 : UInt8) ∈ wcstombs (List.replicate n 0) (s ++ 0 :: rest) n ↔
      ∀ front, front <+: s → ∀ bytes, encodeAll front = some bytes → bytes.length ≠ n := by
  have hle := length_encodeUpTo n s
  rw [wcstombs, WStr.chars_ofBlock_append hs, ← nul_mem_encodeUpTo_iff hs]
  simp only [List.drop_replicate, List.mem_append, List.mem_replicate]
  constructor
  · rintro (hmem | ⟨hroom, -⟩)
    · exact .inl hmem
    · exact .inr (by omega)
  · rintro (hmem | hlt)
    · exact .inl hmem
    · exact .inr ⟨by omega, trivial⟩

/-! ### Texts with room for all of their bytes -/

/-- The bytes of the characters in front of the first one that has none. -/
def encodeFront : List WChar → Bytes
  | [] => []
  | c :: s =>
    match utf8Encode c with
    | none => []
    | some bytes => bytes ++ encodeFront s

theorem encodeFront_cons {c : WChar} {bytes : Bytes} (hc : utf8Encode c = some bytes)
    (s : List WChar) : encodeFront (c :: s) = bytes ++ encodeFront s := by
  rw [encodeFront, hc]

/-- All the bytes of a text, when its characters have some. -/
theorem encodeFront_eq {s : List WChar} {bytes : Bytes} (h : encodeAll s = some bytes) :
    encodeFront s = bytes := by
  induction s generalizing bytes with
  | nil =>
    cases h
    rfl
  | cons c s ih =>
    obtain ⟨first, hc, hrest⟩ := Option.bind_eq_some_iff.mp h
    obtain ⟨others, hothers, rfl⟩ := Option.map_eq_some_iff.mp hrest
    rw [encodeFront_cons hc, ih hothers]

theorem length_encodeFront_le (s : List WChar) : (encodeFront s).length ≤ 4 * s.length := by
  induction s with
  | nil => exact Nat.zero_le _
  | cons c s ih =>
    cases hc : utf8Encode c with
    | none =>
      rw [encodeFront, hc]
      exact Nat.zero_le _
    | some bytes =>
      have hlen := (length_utf8Encode hc).2
      rw [encodeFront_cons hc, List.length_append, List.length_cons]
      omega

theorem nul_notMem_encodeFront {s : List WChar} (hs : (0 : WChar) ∉ s) :
    (0 : UInt8) ∉ encodeFront s := by
  induction s with
  | nil => exact List.not_mem_nil
  | cons c s ih =>
    rw [List.mem_cons, not_or] at hs
    cases hc : utf8Encode c with
    | none =>
      rw [encodeFront, hc]
      exact List.not_mem_nil
    | some bytes =>
      rw [encodeFront_cons hc, List.mem_append, not_or]
      exact ⟨nul_notMem_utf8Encode (Ne.symm hs.1) hc, ih hs.2⟩

/-- With room for four bytes a character, nothing is cut off. -/
theorem encodeUpTo_of_room {s : List WChar} {room : ℕ} (h : 4 * s.length < room) :
    ∃ k ≤ 1, encodeUpTo room s = encodeFront s ++ List.replicate k 0 := by
  induction s generalizing room with
  | nil => exact ⟨1, le_rfl, if_pos (Nat.pos_of_ne_zero (Nat.ne_zero_of_lt h))⟩
  | cons c s ih =>
    rw [List.length_cons] at h
    cases hc : utf8Encode c with
    | none =>
      refine ⟨0, Nat.zero_le _, ?_⟩
      rw [encodeUpTo, encodeFront, hc]
      rfl
    | some bytes =>
      have hlen := (length_utf8Encode hc).2
      obtain ⟨k, hk, hrest⟩ := ih (show 4 * s.length < room - bytes.length by omega)
      refine ⟨k, hk, ?_⟩
      rw [encodeFront_cons hc, List.append_assoc, ← hrest, encodeUpTo, hc]
      exact if_pos (by omega)

/-- **A cleared array that has room for a text** holds its bytes after the conversion. -/
theorem wcstombs_of_room {s : List WChar} (hs : (0 : WChar) ∉ s) (rest : List WChar) {n : ℕ}
    (h : 4 * s.length < n) :
    ∃ k, wcstombs (List.replicate n 0) (s ++ 0 :: rest) n =
      encodeFront s ++ 0 :: List.replicate k 0 := by
  obtain ⟨j, hj, hwritten⟩ := encodeUpTo_of_room h
  have hlen := length_encodeFront_le s
  rw [wcstombs, WStr.chars_ofBlock_append hs]
  simp only [hwritten, List.drop_replicate, List.length_append, List.length_replicate]
  refine ⟨j + (n - ((encodeFront s).length + j)) - 1, ?_⟩
  rw [List.append_assoc, List.replicate_append_replicate, ← List.replicate_succ]
  congr 2
  omega

/-! ### Single bytes -/

/-- A byte below 128 stands for itself. -/
theorem toNat_of_mem_utf8Encode {c : WChar} {bytes : Bytes} (h : utf8Encode c = some bytes)
    {x : UInt8} (hx : x ∈ bytes) (hascii : x.toNat < 128) : c.toNat = x.toNat := by
  have hhigh : ∀ n, 128 ≤ n → n < 256 → x ≠ UInt8.ofNat n := by
    rintro n hge hlt rfl
    rw [UInt8.toNat_ofNat_of_lt' hlt] at hascii
    omega
  unfold utf8Encode at h
  simp only at h
  split_ifs at h with hone htwo hthree hsurrogate hfour
  all_goals
    cases h
    simp only [List.mem_cons, List.not_mem_nil, or_false] at hx
  · rw [hx, UInt8.toNat_ofNat_of_lt' (by rw [UInt8.size]; omega)]
  · exact (hx.elim (hhigh _ (by omega) (by omega)) (hhigh _ (by omega) (by omega))).elim
  · rcases hx with hx | hx | hx
    all_goals exact absurd hx (hhigh _ (by omega) (by omega))
  · rcases hx with hx | hx | hx | hx
    all_goals exact absurd hx (hhigh _ (by omega) (by omega))

theorem encodeAll_append {s t : List WChar} {bytes : Bytes} (h : encodeAll (s ++ t) = some bytes) :
    ∃ front back, encodeAll s = some front ∧ encodeAll t = some back ∧ bytes = front ++ back := by
  induction s generalizing bytes with
  | nil => exact ⟨[], bytes, rfl, h, rfl⟩
  | cons c s ih =>
    obtain ⟨first, hc, hrest⟩ := Option.bind_eq_some_iff.mp h
    obtain ⟨others, hothers, rfl⟩ := Option.map_eq_some_iff.mp hrest
    obtain ⟨front, back, hfront, hback, rfl⟩ := ih hothers
    refine ⟨first ++ front, back, ?_, hback, (List.append_assoc _ _ _).symm⟩
    rw [encodeAll, hc, Option.bind_some, hfront]
    rfl

end Clib
