import C2Hat.Config.IniLines

/-!
# Writing a configuration file

A configuration file is written line by line: blank lines, comments, sections, and names with
their values, with blanks where the parser drops them, and with a comment behind a value.  What
is written is read back, the entries in their order and nothing else.

## Main definitions

* `Item`, `Item.text` — what a line is for, and how it is written.
* `Item.WellFormed` — what keeps a line from being taken for something else.
* `fileText` — a file, which may start with a byte order mark.

## Main results

* `meaning_text` — a line means what it was written for.
* `outcomes_fileText` — what comes of the lines of a file.
* `parse_fileText` — **a file that is written is read back.**
-/

namespace C2Hat

open Clib

namespace Ini

/-! ### Lines -/

/-- What a line is for.  A comment behind a value has blanks in front of it. -/
inductive Item
  | blank (pad : Bytes)
  | comment (pad : Bytes) (mark : UInt8) (note : Bytes)
  | head (pad name ignored : Bytes)
  | pair (pad name gap : Bytes) (sep : UInt8) (gap' value trail : Bytes) (note : Option Bytes)

/-- The comment behind a value. -/
def noteText (note : Option Bytes) : Bytes := (note.map fun note => 59 :: note).getD []

/-- What is written behind the separator. -/
def valueText (gap' value trail : Bytes) (note : Option Bytes) : Bytes :=
  gap' ++ (value ++ trail) ++ noteText note

/-- How a line is written. -/
def Item.text : Item → Bytes
  | .blank pad => pad
  | .comment pad mark note => pad ++ mark :: note
  | .head pad name ignored => pad ++ 91 :: (name ++ 93 :: ignored)
  | .pair pad name gap sep gap' value trail note =>
    pad ++ (name ++ gap ++ sep :: valueText gap' value trail note)

/-- Blanks only. -/
def Blank (s : Bytes) : Prop := ∀ c ∈ s, isSpace c = true

/-- No blank in front of a comment sign. -/
def NoComment (s : Bytes) : Prop := ∀ c, isSpace c = true → ¬ [c, 59] <:+: s

/-- No blank at either end. -/
def Tight (s : Bytes) : Prop :=
  (∀ c ∈ s.head?, isSpace c = false) ∧ ∀ c ∈ s.getLast?, isSpace c = false

instance (s : Bytes) : Decidable (Blank s) := List.decidableBAll _ s

instance (s : Bytes) : Decidable (Tight s) :=
  @instDecidableAnd _ _ (Option.decidableForallMem _) (Option.decidableForallMem _)

/-- What a line may be written with.  A continuation of the previous line is one that starts with
a blank, so with `multiline` a section or a name must not. -/
def Item.Sound (multiline : Bool) : Item → Prop
  | .blank pad => Blank pad
  | .comment pad mark _ => Blank pad ∧ mark ∈ INI_START_COMMENT_PREFIXES
  | .head pad name _ =>
    Blank pad ∧ (multiline = true → pad = []) ∧ 93 ∉ name ∧ NoComment name ∧
      name.length < MAX_SECTION
  | .pair pad name gap sep gap' value trail note =>
    (Blank pad ∧ (multiline = true → pad = []) ∧ Blank gap ∧ Blank gap' ∧ Blank trail ∧
      (note.isSome = true → trail ≠ [])) ∧
    (name ≠ [] ∧ Tight name ∧ NoComment name ∧ (∀ c ∈ name, c ≠ 61 ∧ c ≠ 58) ∧
      (∀ c ∈ name.head?, c ∉ INI_START_COMMENT_PREFIXES ∧ c ≠ 91)) ∧
    (sep = 61 ∨ sep = 58) ∧ Tight value ∧ NoComment (gap' ++ value)

/-- What keeps a line from being taken for something else, or for more than one line. -/
structure Item.WellFormed (multiline : Bool) (item : Item) : Prop where
  sound : item.Sound multiline
  nulFree : (0 : UInt8) ∉ item.text
  fits : FitsLine INI_MAX_LINE item.text

/-- What a line should mean. -/
def Item.meaning : Item → Meaning
  | .blank _ | .comment _ _ _ => .nothing
  | .head _ name _ => .head name
  | .pair _ name _ _ _ value _ _ => .pair name value

/-! ### The part in front of a comment -/

/-- Whether the last character is a blank. -/
def endsBlank (wasSpace : Bool) (s : Bytes) : Bool := s.foldl (fun _ c => isSpace c) wasSpace

theorem semicolon_of_mem {c : UInt8} : c ∈ INI_INLINE_COMMENT_PREFIXES ↔ c = 59 := by
  have h : INI_INLINE_COMMENT_PREFIXES = [59] := by decide
  rw [h, List.mem_singleton]

/-- A part that is not stopped in. -/
theorem upTo_append {chars : Option Bytes} {wasSpace : Bool} {s : Bytes}
    (h : upTo chars wasSpace s = s) (t : Bytes) :
    upTo chars wasSpace (s ++ t) = s ++ upTo chars (endsBlank wasSpace s) t := by
  induction s generalizing wasSpace with
  | nil => rfl
  | cons c s ih =>
    rw [upTo] at h
    rw [List.cons_append, upTo]
    split at h
    · cases h
    · next hstop =>
      rw [if_neg hstop, ih (List.cons.inj h).2]
      rfl

theorem upTo_eq_self {chars : Option Bytes} {wasSpace : Bool} {s : Bytes}
    (hchars : ∀ cs ∈ chars, ∀ c ∈ s, c ∉ cs) (hcomment : NoComment s)
    (hhead : wasSpace = true → s.head? ≠ some 59) : upTo chars wasSpace s = s := by
  induction s generalizing wasSpace with
  | nil => rfl
  | cons c s ih =>
    have hrest : NoComment s := fun d hd h => hcomment d hd (h.trans (List.suffix_cons c s).isInfix)
    have hnext : isSpace c = true → s.head? ≠ some 59 := by
      intro hc h
      obtain ⟨t, rfl⟩ := List.head?_eq_some_iff.mp h
      exact hcomment c hc ⟨[], t, rfl⟩
    rw [upTo, if_neg, ih (fun cs hcs d hd => hchars cs hcs d (List.mem_cons_of_mem c hd)) hrest
      hnext]
    rintro (⟨cs, hcs, hc⟩ | ⟨hspace, hc⟩)
    · exact hchars cs hcs c List.mem_cons_self hc
    · rw [semicolon_of_mem] at hc
      exact hhead hspace (by rw [hc]; rfl)

theorem Blank.noComment {s : Bytes} (h : Blank s) : NoComment s := by
  rintro c - hin
  exact absurd (h 59 (hin.subset (by simp))) (by decide)

/-- Blanks are not stopped in. -/
theorem Blank.upTo_eq_self {chars : Option Bytes} {wasSpace : Bool} {s : Bytes} (h : Blank s)
    (hchars : ∀ cs ∈ chars, ∀ c ∈ cs, isSpace c = false) : upTo chars wasSpace s = s := by
  refine Ini.upTo_eq_self ?_ h.noComment ?_
  · intro cs hcs c hc hmem
    exact absurd (h c hc) (by rw [hchars cs hcs c hmem]; decide)
  · intro _ hhead
    exact absurd (h 59 (List.mem_of_mem_head? hhead)) (by decide)

theorem endsBlank_append (wasSpace : Bool) (s t : Bytes) :
    endsBlank wasSpace (s ++ t) = endsBlank (endsBlank wasSpace s) t := by
  rw [endsBlank, List.foldl_append]
  rfl

theorem Blank.endsBlank {s : Bytes} (h : Blank s) (hne : s ≠ []) (wasSpace : Bool) :
    Ini.endsBlank wasSpace s = true := by
  obtain ⟨t, c, rfl⟩ := (List.eq_nil_or_concat' s).resolve_left hne
  rw [endsBlank_append]
  exact h c (by simp)

/-! ### Dropping blanks -/

theorem rdropWhile_blank {t : Bytes} (h : Blank t) (s : Bytes) :
    (s ++ t).rdropWhile isSpace = s.rdropWhile isSpace := by
  rw [rdropWhile_append, if_pos (List.rdropWhile_eq_nil_iff.mpr h)]

theorem rdropWhile_keep {c : UInt8} (hc : isSpace c = false) (s t : Bytes) :
    (s ++ c :: t).rdropWhile isSpace = s ++ c :: t.rdropWhile isSpace := by
  have hcons : (c :: t).rdropWhile isSpace = c :: t.rdropWhile isSpace := by
    have happend := rdropWhile_append isSpace [c] t
    rw [List.singleton_append, List.rdropWhile_singleton, hc] at happend
    rw [happend]
    split
    · next h => simp [h]
    · rfl
  rw [rdropWhile_append, hcons, if_neg (List.cons_ne_nil _ _)]

theorem dropWhile_pad {pad : Bytes} (h : Blank pad) {c : UInt8} (hc : isSpace c = false)
    (t : Bytes) : (pad ++ c :: t).dropWhile isSpace = c :: t := by
  rw [List.dropWhile_append_of_pos h, List.dropWhile_cons_of_neg (by simp [hc])]

theorem Blank.append {s t : Bytes} (hs : Blank s) (ht : Blank t) : Blank (s ++ t) := by
  intro c hc
  rcases List.mem_append.mp hc with h | h
  · exact hs c h
  · exact ht c h

theorem blank_lineFeed : Blank [lineFeed] := by
  intro c hc
  rw [List.mem_singleton.mp hc]
  decide

theorem Tight.rdropWhile {s : Bytes} (h : Tight s) : s.rdropWhile isSpace = s := by
  rw [List.rdropWhile_eq_self_iff]
  intro hne
  rw [h.2 _ (List.getLast?_eq_some_getLast hne)]
  decide

/-- **A text between blanks.** -/
theorem strip_pad {pad s : Bytes} (hpad : Blank pad) (hs : Tight s) (trail : Bytes)
    (htrail : Blank trail) :
    ((pad ++ (s ++ trail)).dropWhile isSpace).rdropWhile isSpace = s := by
  cases s with
  | nil =>
    rw [List.nil_append, List.dropWhile_eq_nil_iff.mpr (hpad.append htrail)]
    rfl
  | cons c s =>
    rw [List.cons_append, dropWhile_pad hpad (hs.1 c rfl), ← List.cons_append,
      rdropWhile_blank htrail, hs.rdropWhile]

/-- What the parser makes of the text behind a separator. -/
theorem strip_valueText {gap value trail : Bytes} {note : Option Bytes} (hgap : Blank gap)
    (htrail : Blank trail) (hnote : note.isSome = true → trail ≠ []) (hvalue : Tight value)
    (hcomment : NoComment (gap ++ value)) :
    ((upTo none false ((valueText gap value trail note ++ [lineFeed]).rdropWhile
      isSpace)).dropWhile isSpace).rdropWhile isSpace = value := by
  have hself : upTo none false (gap ++ value) = gap ++ value :=
    upTo_eq_self (by simp) hcomment (by simp)
  cases note with
  | none =>
    have htext : valueText gap value trail none ++ [lineFeed] =
        (gap ++ value) ++ (trail ++ [lineFeed]) := by
      simp [valueText, noteText]
    rw [htext, rdropWhile_blank (htrail.append blank_lineFeed)]
    rcases (List.eq_nil_or_concat' value) with rfl | ⟨v, c, rfl⟩
    · rw [List.append_nil, List.rdropWhile_eq_nil_iff.mpr hgap]
      rfl
    · have hc : isSpace c = false := hvalue.2 c (by simp)
      have hkeep := rdropWhile_keep hc (gap ++ v) []
      rw [List.rdropWhile_nil, List.append_assoc] at hkeep
      have hstrip := strip_pad hgap hvalue [] (List.forall_mem_nil _)
      rw [List.append_nil] at hstrip
      rw [hkeep, hself, hstrip]
  | some note =>
    have htext : valueText gap value trail (some note) ++ [lineFeed] =
        (gap ++ (value ++ trail)) ++ 59 :: (note ++ [lineFeed]) := by
      simp [valueText, noteText]
    have hassoc : ∀ R : Bytes, gap ++ (value ++ trail) ++ 59 :: R =
        (gap ++ value) ++ (trail ++ 59 :: R) := by simp
    have htrail' : ∀ w, upTo none w trail = trail := fun w => htrail.upTo_eq_self (by simp)
    rw [htext, rdropWhile_keep (by decide), hassoc, upTo_append hself, upTo_append (htrail' _),
      htrail.endsBlank (hnote rfl), upTo, if_pos (.inr ⟨rfl, by decide⟩), List.append_nil,
      List.append_assoc, strip_pad hgap hvalue trail htrail]

/-! ### What a line means -/

theorem headMeaning_text {name rest : Bytes} (hname : (93 : UInt8) ∉ name)
    (hcomment : NoComment name) : headMeaning (name ++ 93 :: rest) = .head name := by
  have hself : upTo (some (ascii "]")) false name = name := by
    refine upTo_eq_self ?_ hcomment (by simp)
    rintro cs ⟨⟩ c hc hmem
    have hsingle : ascii "]" = [93] := by decide
    rw [hsingle, List.mem_singleton] at hmem
    exact hname (hmem ▸ hc)
  rw [headMeaning, upTo_append hself, upTo, if_pos (.inl ⟨_, rfl, by decide⟩), List.append_nil,
    List.drop_left]
  exact if_pos rfl

theorem pairMeaning_text (rest : Bytes) {name gap : Bytes} {sep : UInt8} (hname : Tight name)
    (hcomment : NoComment name) (hsep : ∀ c ∈ name, c ≠ 61 ∧ c ≠ 58) (hgap : Blank gap)
    (h : sep = 61 ∨ sep = 58) :
    pairMeaning (name ++ gap ++ sep :: rest) =
      .pair name (((upTo none false rest).dropWhile isSpace).rdropWhile isSpace) := by
  have hchars : ascii "=:" = [61, 58] := by decide
  have hself : upTo (some (ascii "=:")) false name = name := by
    refine upTo_eq_self ?_ hcomment (by simp)
    rintro cs ⟨⟩ c hc hmem
    rw [hchars] at hmem
    rcases List.mem_pair.mp hmem with rfl | rfl
    · exact (hsep _ hc).1 rfl
    · exact (hsep _ hc).2 rfl
  have hself' : ∀ w, upTo (some (ascii "=:")) w gap = gap := by
    intro w
    refine hgap.upTo_eq_self ?_
    rintro cs ⟨⟩
    rw [hchars, List.forall_mem_cons, List.forall_mem_singleton]
    exact ⟨by decide, by decide⟩
  have hstop : sep ∈ ascii "=:" := by
    rw [hchars]
    exact List.mem_pair.mpr h
  rw [pairMeaning, List.append_assoc, upTo_append hself, upTo_append (hself' _), upTo,
    if_pos (.inl ⟨_, rfl, hstop⟩), List.append_nil, ← List.append_assoc, List.drop_left]
  simp only [if_pos h]
  rw [rdropWhile_blank hgap, hname.rdropWhile]

/-- **A line means** what it was written for. -/
theorem meaning_text {multiline continues : Bool} {item : Item} (h : item.Sound multiline)
    (hcontinues : continues = true → item.meaning = .nothing) :
    meaning continues (((item.text ++ [lineFeed]).rdropWhile isSpace).dropWhile isSpace) =
      item.meaning := by
  cases item with
  | blank pad =>
    have hblank : Blank (pad ++ [lineFeed]) := Blank.append h blank_lineFeed
    rw [Item.text, List.rdropWhile_eq_nil_iff.mpr hblank]
    rfl
  | comment pad mark note =>
    obtain ⟨hpad, hmark⟩ := h
    have hall : INI_START_COMMENT_PREFIXES.all (!isSpace ·) = true := by decide
    have hspace : ∀ c ∈ INI_START_COMMENT_PREFIXES, isSpace c = false := by
      intro c hc
      simpa using List.all_eq_true.mp hall c hc
    replace hspace := hspace mark hmark
    rw [Item.text, List.append_assoc, List.cons_append, rdropWhile_keep hspace,
      dropWhile_pad hpad hspace, meaning, if_pos hmark]
    rfl
  | head pad name ignored =>
    obtain ⟨hpad, -, hname, hcomment, -⟩ := h
    have hfalse : continues = false := Bool.eq_false_iff.mpr fun h => absurd (hcontinues h) (by
      rw [Item.meaning]
      exact Meaning.noConfusion)
    have hassoc : pad ++ 91 :: (name ++ 93 :: ignored) ++ [lineFeed] =
        (pad ++ 91 :: name) ++ 93 :: (ignored ++ [lineFeed]) := by simp
    rw [Item.text, hassoc, rdropWhile_keep (by decide), List.append_assoc, List.cons_append,
      dropWhile_pad hpad (by decide), meaning, if_neg (by decide), hfalse, if_neg (by decide),
      if_pos rfl, headMeaning_text hname hcomment]
    rfl
  | pair pad name gap sep gap' value trail note =>
    obtain ⟨⟨hpad, -, hgap, hgap', htrail, hnote⟩, ⟨hne, htight, hcomment, hchars, hfirst⟩, hsep,
      hvalue, hcomment'⟩ := h
    have hfalse : continues = false := Bool.eq_false_iff.mpr fun h => absurd (hcontinues h) (by
      rw [Item.meaning]
      exact Meaning.noConfusion)
    have hspace : isSpace sep = false := by
      rcases hsep with rfl | rfl <;> decide
    have hassoc : pad ++ (name ++ gap ++ sep :: valueText gap' value trail note) ++ [lineFeed] =
        (pad ++ (name ++ gap)) ++ sep :: (valueText gap' value trail note ++ [lineFeed]) := by simp
    rw [Item.text, hassoc, rdropWhile_keep hspace, List.append_assoc]
    have hpair := pairMeaning_text ((valueText gap' value trail note ++
      [lineFeed]).rdropWhile isSpace) htight hcomment hchars hgap hsep
    rw [strip_valueText hgap' htrail hnote hvalue hcomment'] at hpair
    obtain ⟨c, name, rfl⟩ := List.exists_cons_of_ne_nil hne
    rw [List.cons_append, List.cons_append, dropWhile_pad hpad (htight.1 c rfl), meaning,
      if_neg (hfirst c rfl).1, hfalse, if_neg (by decide), if_neg (hfirst c rfl).2]
    exact hpair

/-! ### A file -/

/-- A file, which may start with a byte order mark. -/
def fileText (marked : Bool) (items : List Item) : Bytes :=
  (if marked then bom else []) ++ unlines (items.map Item.text)

/-- The lines are well-formed, also the first one with the byte order mark. -/
structure FileWellFormed (multiline marked : Bool) (items : List Item) : Prop where
  lines : ∀ item ∈ items, item.WellFormed multiline
  first : ∀ item ∈ items.head?,
    if marked then FitsLine INI_MAX_LINE (bom ++ item.text) else ¬ bom <+: item.text

/-- What should come of the lines, from a section on. -/
def calls (sectionName : Bytes) : List Item → List Outcome
  | [] => []
  | .head _ name _ :: items => .nothing :: calls name items
  | .pair _ name _ _ _ value _ _ :: items =>
    .call (CStr.ofBlock sectionName) (CStr.ofBlock name) (CStr.ofBlock value) ::
      calls sectionName items
  | _ :: items => .nothing :: calls sectionName items

/-- A section or a name starts at the front of the line. -/
theorem front_of_meaning {item : Item} (h : item.Sound true) (hmeaning : item.meaning ≠ .nothing) :
    ∃ c text, item.text = c :: text ∧ isSpace c = false := by
  cases item with
  | blank pad => exact absurd rfl hmeaning
  | comment pad mark note => exact absurd rfl hmeaning
  | head pad name ignored =>
    rw [Item.text, h.2.1 rfl]
    exact ⟨91, _, rfl, by decide⟩
  | pair pad name gap sep gap' value trail note =>
    obtain ⟨⟨-, hpad, -⟩, ⟨hne, htight, -⟩, -⟩ := h
    obtain ⟨c, name, rfl⟩ := List.exists_cons_of_ne_nil hne
    rw [Item.text, hpad rfl]
    exact ⟨c, _, rfl, htight.1 c rfl⟩

/-- What is read of a line with its line feed. -/
theorem reads_item {multiline : Bool} (first : Bool) (ctx : Context) (mark : Bytes) {item : Item}
    (h : item.WellFormed multiline)
    (hmark : if mark = [] then first = true → ¬ bom <+: item.text else mark = bom ∧ first = true)
    (hprev : first = true → ctx.prevName = []) :
    ctx.reads multiline first (mark ++ item.text ++ [lineFeed]) = item.meaning := by
  have hnul : (0 : UInt8) ∉ item.text ++ [lineFeed] := by
    rw [List.mem_append, not_or]
    exact ⟨h.nulFree, by decide⟩
  have hskipped : (CStr.ofBlock (mark ++ item.text ++ [lineFeed])).bytes =
        mark ++ (item.text ++ [lineFeed]) ∧
      (if first = true ∧ bom <+: mark ++ (item.text ++ [lineFeed]) then 3 else 0) =
        mark.length := by
    split at hmark
    · next hnil =>
      subst hnil
      refine ⟨CStr.bytes_ofBlock_of_nulFree hnul, if_neg ?_⟩
      rintro ⟨hfirst, hbom⟩
      rcases List.prefix_concat_iff.mp hbom with heq | hpre
      · have hlast := congrArg List.getLast? heq
        rw [List.getLast?_concat] at hlast
        exact absurd hlast (by decide)
      · exact hmark hfirst hpre
    · obtain ⟨rfl, hfirst⟩ := hmark
      rw [List.append_assoc]
      refine ⟨CStr.bytes_ofBlock_of_nulFree ?_, if_pos ⟨hfirst, List.prefix_append _ _⟩⟩
      rw [List.mem_append, not_or]
      exact ⟨by decide, hnul⟩
  rw [Context.reads, hskipped.1, hskipped.2, List.drop_left]
  refine meaning_text h.sound ?_
  rw [Bool.and_eq_true, decide_eq_true_eq]
  rintro ⟨rfl, hne, hpos⟩
  by_contra hmeaning
  obtain ⟨c, text, htext, hc⟩ := front_of_meaning h.sound hmeaning
  have hnil : mark = [] := by
    by_contra hmark'
    rw [if_neg hmark'] at hmark
    exact hne (hprev hmark.2)
  have hkeep := rdropWhile_keep hc [] (text ++ [lineFeed])
  rw [List.nil_append] at hkeep
  rw [htext, hnil, List.cons_append, hkeep, List.nil_append,
    List.takeWhile_cons_of_neg (by simp [hc])] at hpos
  exact absurd hpos (by simp)

/-- What a line leaves for the next ones. -/
theorem calls_cons {multiline : Bool} {item : Item} (h : item.Sound multiline) (ctx : Context)
    (items : List Item) : calls ctx.sectionName (item :: items) =
      (ctx.take item.meaning).2 :: calls (ctx.take item.meaning).1.sectionName items := by
  cases item with
  | blank pad => rfl
  | comment pad mark note => rfl
  | head pad name ignored =>
    obtain ⟨-, -, -, -, hlen⟩ := h
    show _ = Outcome.nothing :: calls (name.take (MAX_SECTION - 1)) items
    rw [List.take_of_length_le (Nat.le_sub_one_of_lt hlen)]
    rfl
  | pair pad name gap sep gap' value trail note => rfl

/-- The lines behind the first one. -/
theorem outcomesFrom_items {multiline : Bool} {items : List Item} (ctx : Context)
    (h : ∀ item ∈ items, item.WellFormed multiline) :
    outcomesFrom multiline false ctx ((items.map Item.text).map fun line => line ++ [lineFeed]) =
      calls ctx.sectionName items := by
  induction items generalizing ctx with
  | nil => rfl
  | cons item items ih =>
    rw [List.forall_mem_cons] at h
    have hreads := reads_item false ctx [] h.1 (by simp) (by simp)
    rw [List.nil_append] at hreads
    rw [List.map_cons, List.map_cons, outcomesFrom, hreads]
    simp only
    rw [ih _ h.2, calls_cons h.1.sound]

/-- **What comes of the lines** of a file. -/
theorem outcomes_fileText {multiline marked : Bool} {item : Item} {items : List Item}
    (h : FileWellFormed multiline marked (item :: items)) :
    outcomes multiline (fileText marked (item :: items)) = calls [] (item :: items) := by
  obtain ⟨hlines, hfirst⟩ := h
  rw [List.forall_mem_cons] at hlines
  replace hfirst := hfirst item rfl
  have hmark : ∀ mark : Bytes, mark = (if marked then bom else []) →
      FitsLine INI_MAX_LINE (mark ++ item.text) ∧
        if mark = [] then true = true → ¬ bom <+: item.text else mark = bom ∧ true = true := by
    rintro _ rfl
    cases marked
    · exact ⟨hlines.1.fits, fun _ => hfirst⟩
    · exact ⟨hfirst, rfl, rfl⟩
  rw [fileText]
  generalize (if marked then bom else []) = mark at hmark
  obtain ⟨hfits, hmark⟩ := hmark mark rfl
  have hunlines : mark ++ unlines ((item :: items).map Item.text) =
      unlines ((mark ++ item.text) :: items.map Item.text) ++ [] := by
    simp [unlines]
  have hall : ∀ line ∈ (mark ++ item.text) :: items.map Item.text, FitsLine INI_MAX_LINE line := by
    rw [List.forall_mem_cons]
    refine ⟨hfits, ?_⟩
    intro line hline
    obtain ⟨item, hitem, rfl⟩ := List.mem_map.mp hline
    exact (hlines.2 item hitem).fits
  rw [outcomes, hunlines, chunks_lines hall, chunks_nil, List.append_nil, List.map_cons,
    outcomesFrom, reads_item true .empty mark hlines.1 hmark fun _ => rfl]
  simp only
  rw [outcomesFrom_items _ hlines.2]
  exact (calls_cons hlines.1.sound .empty items).symm

/-! ### Reading it back -/

variable {σ : Type}

/-- A handler that does not look behind the value. -/
def plainHandler (h : σ → CStr → CStr → CStr → Bool × σ) : Handler σ :=
  fun user s n v _ => h user s n v

/-- The calls of a handler, one after the other, and the number of the first line with an
error. -/
def replay (h : σ → CStr → CStr → CStr → Bool × σ) : ℕ → ℕ → σ → List Outcome → ℕ × σ
  | _, error, user, [] => (error, user)
  | lineno, error, user, .nothing :: os => replay h (lineno + 1) error user os
  | lineno, error, user, .malformed :: os =>
    replay h (lineno + 1) (firstError (lineno + 1) error) user os
  | lineno, error, user, .call s n v :: os =>
    replay h (lineno + 1) (if (h user s n v).1 then error else firstError (lineno + 1) error)
      (h user s n v).2 os

theorem replay_of_runs {h : σ → CStr → CStr → CStr → Bool × σ} {lineno error : ℕ} {user : σ}
    {os : List Outcome} {result : ℕ × σ}
    (hruns : Runs (plainHandler h) lineno error user os result) :
    result = replay h lineno error user os := by
  induction hruns with
  | nil => rfl
  | @cons lineno error error' user user' o os result effect rest ih =>
    cases o with
    | nothing =>
      obtain ⟨rfl, rfl⟩ := effect
      exact ih
    | malformed =>
      obtain ⟨rfl, rfl⟩ := effect
      exact ih
    | call s n v =>
      obtain ⟨behind, -, rfl, rfl⟩ := effect
      exact ih

/-- A file without lines, which may be a byte order mark. -/
theorem replay_fileText_nil (multiline marked : Bool) (h : σ → CStr → CStr → CStr → Bool × σ)
    (user : σ) : replay h 0 0 user (outcomes multiline (fileText marked [])) = (0, user) := by
  have hmark : outcomes multiline bom = [.nothing] := by
    cases multiline <;> decide
  cases marked with
  | false => rfl
  | true =>
    have htext : fileText true [] = bom := by decide
    rw [htext, hmark]
    rfl

/-- **A file that is written is read back**: the handler is called for the entries in their
order, and only its own result can make a line count as an error. -/
theorem parse_fileText {multiline marked : Bool} {items : List Item}
    (h : FileWellFormed multiline marked items) (handler : σ → CStr → CStr → CStr → Bool × σ)
    (user : σ) {line : Bytes} (hline : line.length = INI_MAX_LINE) {fuel : ℕ}
    (hfuel : (fileText marked items).length < fuel) :
    parseStream multiline fgets line fuel (fileText marked items) (plainHandler handler) user =
      .ok (some (replay handler 0 0 user (calls [] items))) := by
  obtain ⟨result, hparse, hruns⟩ := parseStream_runs multiline (plainHandler handler) user
    (fileText marked items) hline hfuel
  rw [hparse, replay_of_runs hruns]
  cases items with
  | nil => rw [replay_fileText_nil]; rfl
  | cons item items => rw [outcomes_fileText h]

/-- `[server]` and `port = 5678`. -/
def portItems : List Item :=
  [.head [] (ascii "server") [], .pair [] (ascii "port") [32] 61 [32] (ascii "5678") [] none]

theorem noComment_of_not_mem {s : Bytes} (h : (59 : UInt8) ∉ s) : NoComment s :=
  fun _ _ hin => h (hin.subset (by simp))

theorem wellFormed_portItems : FileWellFormed false false portItems where
  lines := by
    have hname : ∀ c ∈ ascii "port", c ≠ 61 ∧ c ≠ 58 := by
      intro c hc
      have hall : (ascii "port").all (fun c => c != 61 && c != 58) = true := by decide
      simpa using List.all_eq_true.mp hall c hc
    have hfirst : ∀ c ∈ (ascii "port").head?, c ∉ INI_START_COMMENT_PREFIXES ∧ c ≠ 91 := by
      rintro c ⟨⟩
      exact ⟨by decide, by decide⟩
    rw [portItems, List.forall_mem_cons, List.forall_mem_singleton]
    constructor
    · refine ⟨?_, by decide, ⟨by decide, by decide⟩⟩
      exact ⟨by decide, by decide, by decide, noComment_of_not_mem (by decide), by decide⟩
    · refine ⟨?_, by decide, ⟨by decide, by decide⟩⟩
      exact ⟨⟨by decide, by decide, by decide, by decide, by decide, by decide⟩,
        ⟨by decide, by decide, noComment_of_not_mem (by decide), hname, hfirst⟩, .inl rfl, by decide,
        noComment_of_not_mem (by decide)⟩
  first := by
    rintro item ⟨⟩
    show ¬ bom <+: Item.text (.head [] (ascii "server") [])
    decide

theorem parse_fileText_port :
    parseStream false fgets (List.replicate INI_MAX_LINE 0) 100 (fileText false portItems)
        (plainHandler fun entries s n v => (true, entries ++ [(s, n, v)])) [] =
      .ok (some (replay (fun entries s n v => (true, entries ++ [(s, n, v)])) 0 0 []
        (calls [] portItems))) :=
  parse_fileText wellFormed_portItems _ [] List.length_replicate (by decide)

end Ini

end C2Hat
