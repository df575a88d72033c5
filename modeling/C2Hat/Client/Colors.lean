import C2Hat.HashRuns
import C2Hat.Lib.Run

/-!
# The colours of the users

The colour pairs of `src/client/uicolor.c`, and `GetUserColor` of `src/client/uichat.c`, which
gives one to each user.  The next colour is a counter.  It starts at a random pair, which lies
`kColorPairWhiteOnRed` further when the terminal has more pairs than the default ones, and starts
again when it has passed the number of pairs.

The colours are numbers of an `int`, which has room for many more than a terminal has.

## Main definitions

* `UIColor`, `UIColor.init` — the pairs that are initialised, which are those below their number.
* `UserColors.getUserColor`, `UserColors.leave` — the colour of a user, and one who leaves.
* `UserColors.Fits` — a call which finds a next colour that is a pair.

## Main results

* `UIColor.exists_pairCount` — there may be any number of pairs.
* `color_is_pair_iff` — **when the colour of a user is a pair that has been initialised.**
-/

namespace C2Hat

open Clib Runs

/-- The last one of the default pairs, `kColorPairWhiteOnRed`. -/
def kColorPairWhiteOnRed : ℕ := 8

/-! ### Colour pairs -/

/-- The pairs of the terminal, which are numbered. -/
structure UIColor where
  /-- `pairCount`. -/
  pairCount : ℕ
  /-- The pair of the terminal, and those of the calls of `init_pair`. -/
  pairs : List ℕ
  /-- The pairs are those below their number. -/
  mem_pairs_iff : ∀ p, p ∈ pairs ↔ p < pairCount
  /-- There are the default ones. -/
  count_le : kColorPairWhiteOnRed + 1 ≤ pairCount

namespace UIColor

/-- The default pairs. -/
def default : UIColor where
  pairCount := kColorPairWhiteOnRed + 1
  pairs := [0, 1, 2, 3, 4, 5, 6, 7, 8]
  mem_pairs_iff p := by
    simp only [kColorPairWhiteOnRed, List.mem_cons, List.not_mem_nil, or_false]
    omega
  count_le := le_rfl

/-- Another pair. -/
def addPair (c : UIColor) : UIColor where
  pairCount := c.pairCount + 1
  pairs := c.pairs ++ [c.pairCount]
  mem_pairs_iff p := by
    rw [List.mem_append, List.mem_singleton, c.mem_pairs_iff]
    omega
  count_le := c.count_le.trans (Nat.le_succ _)

/-- `UIColor_init` for a terminal with that many colours, where `custom` is whether they can be
changed, and `contrasts` whether the random colour for a number is seen on the background. -/
def init (custom : Bool) (colors : ℕ) (contrasts : ℕ → Bool) : UIColor :=
  if custom ∧ colors > kColorPairWhiteOnRed then
    (List.range' 8 (colors - 8)).foldl (fun c i => if contrasts i then c.addPair else c) default
  else default

theorem pairCount_foldl (c : UIColor) (is : List ℕ) :
    (is.foldl (fun c _ => if true then c.addPair else c) c).pairCount =
      c.pairCount + is.length := by
  induction is generalizing c with
  | nil => rfl
  | cons i is ih =>
    rw [List.foldl_cons, ih, if_pos rfl, List.length_cons]
    show c.pairCount + 1 + is.length = _
    omega

/-- **There may be any number of pairs** from that of the default ones on. -/
theorem exists_pairCount {n : ℕ} (h : kColorPairWhiteOnRed + 1 ≤ n) :
    ∃ custom colors contrasts, (init custom colors contrasts).pairCount = n := by
  rw [kColorPairWhiteOnRed] at h
  rcases h.lt_or_eq with hlt | rfl
  · refine ⟨true, n - 1, fun _ => true, ?_⟩
    rw [init, if_pos ⟨rfl, by rw [kColorPairWhiteOnRed]; omega⟩, pairCount_foldl,
      List.length_range']
    show 9 + (n - 1 - 8) = n
    omega
  · exact ⟨false, 0, fun _ => true, rfl⟩

end UIColor

/-! ### Colours of users -/

/-- The colours of the users, and the one that is given next. -/
structure UserColors where
  nextColor : ℤ
  users : Hash ℤ

namespace UserColors

/-- The colours after `UIChatWin_init`. -/
def init : UserColors := ⟨-1, Hash.new⟩

-- the number of pairs, `UIColor_getCount()`
variable (colors : ℕ)

/-- Whether there are more pairs than the default ones. -/
def extendedColors : Bool := colors > kColorPairWhiteOnRed + 1

/-- The colour the counter starts at, given the result of `rand`. -/
def firstColor (random : ℕ) : ℤ :=
  if extendedColors colors then (random % colors : ℕ) + kColorPairWhiteOnRed
  else (random % colors : ℕ)

/-- The next colour, which is chosen at random when there is none. -/
def startColor (s : UserColors) (random : ℕ) : ℤ :=
  if s.nextColor < 0 then firstColor colors random else s.nextColor

/-- `GetUserColor(userName)`, with the result of `rand`, and whether there is memory for the
name and its colour. -/
def getUserColor (s : UserColors) (userName : CStr) (random : ℕ) (alloc : Bool) :
    Except Stuck (ℤ × UserColors) := do
  let nextColor := s.startColor colors random
  let color ← s.users.getValue userName
  match color with
  | none =>
    let userColor := nextColor
    let nextColor := if nextColor + 1 > colors then -1 else nextColor + 1
    let (stored, users) ← s.users.set userName userColor 4 alloc
    return (if stored then userColor else 0, { nextColor, users })
  | some color => return (color, { s with nextColor })

/-- `UIChatWin_logMessage` about a user who has left the chat. -/
def leave (s : UserColors) (userName : CStr) : Except Stuck UserColors := do
  let (_, users) ← s.users.delete userName
  return { s with users }

end UserColors

/-- What happens to the colours. -/
inductive ColorCall
  | color (userName : CStr) (random : ℕ) (alloc : Bool)
  | leave (userName : CStr)

namespace UserColors

/-- The colours after a call. -/
def step (colors : ℕ) (s : UserColors) : ColorCall → Option UserColors
  | .color userName random alloc =>
    ((s.getUserColor colors userName random alloc).map Prod.snd).toOption
  | .leave userName => (s.leave userName).toOption

/-- Whether a user has a colour. -/
def knows (s : UserColors) (userName : CStr) : Bool :=
  match s.users.getValue userName with
  | .ok none => false
  | _ => true

/-- A user who has no colour yet, and can be given one, comes when the next colour is below the
number of pairs; and when it is to be chosen at random, the number that is drawn leaves room for
what is added to it. -/
def Fits (colors : ℕ) (s : UserColors) : ColorCall → Prop
  | .color userName random alloc =>
    s.knows userName = true ∨ alloc = false ∨
      if s.nextColor < 0 then
        extendedColors colors → random % colors + kColorPairWhiteOnRed < colors
      else s.nextColor < colors
  | .leave _ => True

instance (colors : ℕ) (s : UserColors) (call : ColorCall) : Decidable (Fits colors s call) := by
  cases call
  · exact inferInstanceAs (Decidable (_ ∨ _))
  · exact inferInstanceAs (Decidable True)

/-- The invariant: the counter is not far beyond the pairs, and the colours of the users are
pairs. -/
structure Colored (colors : ℕ) (s : UserColors) : Prop where
  next : -1 ≤ s.nextColor
  users : ∃ m chain, s.users.Represents m chain ∧
    ∀ userName v, m.lookup userName = some v → 0 ≤ v.1 ∧ v.1 < colors

variable {colors : ℕ} {s s' : UserColors} {m : Items ℤ} {chain : ℤ → List Addr}

theorem colored_init : Colored colors init := by
  refine ⟨le_rfl, ∅, _, Hash.represents_new, fun userName v hv => ?_⟩
  rw [Finmap.lookup_empty] at hv
  cases hv

theorem firstColor_nonneg (colors random : ℕ) : 0 ≤ firstColor colors random := by
  rw [firstColor]
  split_ifs <;> omega

/-- The random colour is a pair when it leaves room for what is added. -/
theorem firstColor_lt_iff (hcolors : 0 < colors) (random : ℕ) :
    firstColor colors random < colors ↔
      (extendedColors colors → random % colors + kColorPairWhiteOnRed < colors) := by
  have hlt := Nat.mod_lt random hcolors
  rw [firstColor]
  split_ifs with hextended
  · simp only [hextended, true_imp_iff]
    omega
  · simp only [hextended, Bool.false_eq_true, false_imp_iff, iff_true]
    omega

theorem startColor_nonneg (s : UserColors) (colors random : ℕ) :
    0 ≤ s.startColor colors random := by
  rw [startColor]
  split_ifs with hneg
  · exact firstColor_nonneg colors random
  · exact not_lt.mp hneg

theorem knows_eq (hm : s.users.Represents m chain) (userName : CStr) :
    s.knows userName = (m.lookup userName).isSome := by
  rw [knows, hm.isMap.getValue]
  cases m.lookup userName with
  | none => rfl
  | some v => rfl

/-- A user who has a colour keeps it. -/
theorem getUserColor_known (hm : s.users.Represents m chain) {userName : CStr} {v : ℤ × ℕ}
    (hv : m.lookup userName = some v) (random : ℕ) (alloc : Bool) :
    s.getUserColor colors userName random alloc =
      .ok (v.1, { s with nextColor := s.startColor colors random }) := by
  have hvalue : s.users.getValue userName = .ok (some v.1) := by rw [hm.isMap.getValue, hv]; rfl
  rw [getUserColor, hvalue]
  rfl

/-- Another one is given the next colour. -/
theorem getUserColor_new (colors : ℕ) (hm : s.users.Represents m chain) {userName : CStr}
    (hv : m.lookup userName = none) (random : ℕ) (alloc : Bool) :
    ∃ users chain', s.getUserColor colors userName random alloc =
        .ok (if alloc then s.startColor colors random else 0,
          ⟨if s.startColor colors random + 1 > colors then -1
            else s.startColor colors random + 1, users⟩) ∧
      users.Represents
        (if alloc then m.insert userName (s.startColor colors random, 4) else m) chain' := by
  have hvalue : s.users.getValue userName = .ok none := by rw [hm.isMap.getValue, hv]; rfl
  obtain ⟨users, chain', hset, hm'⟩ := hm.set userName (s.startColor colors random) 4 alloc
  refine ⟨users, chain', ?_, hm'⟩
  rw [getUserColor, hvalue]
  simp only [bind, Except.bind, hset]
  rfl

theorem leave_eq (hm : s.users.Represents m chain) (userName : CStr) :
    ∃ users chain', s.leave userName = .ok { s with users } ∧
      users.Represents (m.erase userName) chain' := by
  obtain ⟨users, chain', hdelete, hm'⟩ := hm.delete userName
  refine ⟨users, chain', ?_, hm'⟩
  rw [leave, hdelete]
  rfl

/-- A new user who fits is given a pair. -/
theorem startColor_lt_iff (hcolors : 0 < colors) (random : ℕ) :
    s.startColor colors random < colors ↔ if s.nextColor < 0 then
      extendedColors colors → random % colors + kColorPairWhiteOnRed < colors
      else s.nextColor < colors := by
  rw [startColor]
  split_ifs
  · exact firstColor_lt_iff hcolors random
  · exact Iff.rfl

theorem Colored.step {call : ColorCall} (hcolors : 0 < colors) (h : Colored colors s)
    (hC : Fits colors s call) (hstep : s.step colors call = some s') : Colored colors s' := by
  obtain ⟨m, chain, hm, hpairs⟩ := h.users
  cases call with
  | color userName random alloc =>
    have hstart := s.startColor_nonneg colors random
    cases hv : m.lookup userName with
    | some v =>
      rw [UserColors.step, getUserColor_known hm hv] at hstep
      cases hstep
      exact ⟨show -1 ≤ s.startColor colors random by omega, m, chain, hm, hpairs⟩
    | none =>
      obtain ⟨users, chain', hrun, hm'⟩ := getUserColor_new colors hm hv random alloc
      rw [UserColors.step, hrun] at hstep
      cases hstep
      refine ⟨?_, _, chain', hm', fun name v hname => ?_⟩
      · show -1 ≤ if s.startColor colors random + 1 > colors then -1
          else s.startColor colors random + 1
        split_ifs <;> omega
      · cases alloc with
        | false => exact hpairs name v hname
        | true =>
          have hlt : s.startColor colors random < colors := by
            rw [startColor_lt_iff hcolors]
            rcases hC with hknown | hmemory | hnext
            · rw [knows_eq hm, hv] at hknown
              cases hknown
            · cases hmemory
            · exact hnext
          by_cases hsame : name = userName
          · rw [hsame, if_pos rfl, Finmap.lookup_insert] at hname
            cases hname
            exact ⟨hstart, hlt⟩
          · rw [if_pos rfl, Finmap.lookup_insert_of_ne _ hsame] at hname
            exact hpairs name v hname
  | leave userName =>
    obtain ⟨users, chain', hrun, hm'⟩ := leave_eq hm userName
    rw [UserColors.step, hrun] at hstep
    cases hstep
    refine ⟨h.next, _, chain', hm', fun name v hname => ?_⟩
    by_cases hsame : name = userName
    · rw [hsame, Finmap.lookup_erase] at hname
      cases hname
    · rw [Finmap.lookup_erase_ne hsame] at hname
      exact hpairs name v hname

/-- **The colour of a user is a pair** that has been initialised, in any run whose calls find a
next colour that is one, exactly when the call does, too. -/
theorem color_is_pair_iff {c : UIColor}
    (h : Reachable (restrict (step c.pairCount) (Fits c.pairCount)) init s) (userName : CStr)
    (random : ℕ) (alloc : Bool) :
    (∃ color : ℕ, ∃ s', s.getUserColor c.pairCount userName random alloc = .ok (color, s') ∧
      color < c.pairCount ∧ color ∈ c.pairs) ↔
        Fits c.pairCount s (.color userName random alloc) := by
  have hpos : 0 < c.pairCount := Nat.lt_of_lt_of_le (Nat.succ_pos _) c.count_le
  have hs : Colored c.pairCount s := h.invariant_restrict (P := Colored c.pairCount) colored_init
    fun _ hs hC hstep => hs.step hpos hC hstep
  have hpair : ∀ {color : ℤ} {s' : UserColors},
      s.getUserColor c.pairCount userName random alloc = .ok (color, s') →
      0 ≤ color → color < c.pairCount →
      ∃ color : ℕ, ∃ s', s.getUserColor c.pairCount userName random alloc = .ok (color, s') ∧
        color < c.pairCount ∧ color ∈ c.pairs := by
    intro color s' hrun hnonneg hlt
    obtain ⟨n, rfl⟩ := Int.eq_ofNat_of_zero_le hnonneg
    have hn : n < c.pairCount := Int.ofNat_lt.mp hlt
    exact ⟨n, s', hrun, hn, (c.mem_pairs_iff n).mpr hn⟩
  obtain ⟨m, chain, hm, hpairs⟩ := hs.users
  have hknows := knows_eq hm userName
  cases hv : m.lookup userName with
  | some v =>
    obtain ⟨hnonneg, hlt⟩ := hpairs userName v hv
    rw [hv] at hknows
    exact iff_of_true (hpair (getUserColor_known hm hv random alloc) hnonneg hlt) (.inl hknows)
  | none =>
    rw [hv, Option.isSome_none] at hknows
    obtain ⟨users, chain', hrun, -⟩ := getUserColor_new c.pairCount hm hv random alloc
    rw [Fits, hknows, ← startColor_lt_iff hpos]
    cases alloc with
    | false => exact iff_of_true (hpair hrun le_rfl (Int.natCast_pos.mpr hpos)) (.inr (.inl rfl))
    | true =>
      constructor
      · rintro ⟨color, s', hrun', hlt, -⟩
        have hcolor : s.startColor c.pairCount random = color :=
          congrArg Prod.fst (Except.ok.inj (hrun.symm.trans hrun'))
        rw [hcolor]
        exact .inr (.inr (Int.ofNat_lt.mpr hlt))
      · rintro (hknown | hmemory | hlt)
        · cases hknown
        · cases hmemory
        · exact hpair hrun (s.startColor_nonneg _ random) hlt

/-- The first user on a terminal with the default pairs. -/
theorem color_is_pair_first :
    ∃ color : ℕ, ∃ s', init.getUserColor UIColor.default.pairCount (str "Joe") 3 true =
      .ok (color, s') ∧ color < UIColor.default.pairCount ∧ color ∈ UIColor.default.pairs :=
  (color_is_pair_iff .refl (str "Joe") 3 true).mpr (by decide +kernel)

/-- With the default pairs, the second user is given the pair behind the last one when the first
one has been given the last one; with more pairs, the first user may already be given one that
does not exist. -/
theorem not_color_is_pair :
    (∃ s s', Reachable (step UIColor.default.pairCount) init s ∧
      s.getUserColor UIColor.default.pairCount (str "Ann") 0 true = .ok (9, s') ∧
      9 ∉ UIColor.default.pairs) ∧
    ∃ s', init.getUserColor (UIColor.init true 19 fun _ => true).pairCount (str "Joe") 19 true =
      .ok (27, s') ∧ 27 ∉ (UIColor.init true 19 fun _ => true).pairs := by
  constructor
  · exact ⟨_, _, ⟨[.color (str "Joe") 8 true], rfl⟩, rfl, by decide⟩
  · exact ⟨_, rfl, by decide⟩

end UserColors

end C2Hat
