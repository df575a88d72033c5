import C2Hat.Config.Ini
import C2Hat.Trim

/-!
# What a configuration file says

The parser of the INI library works in a line buffer.  What it makes of a stream depends on the
lines alone: each one says nothing, or names a section, or a name and a value, or is malformed.
The accesses to the buffer and to the arrays stay inside of them, whatever the stream is.

## Main definitions

* `meaning` — what the text of a line says.
* `outcomes` — what comes of the lines of a stream, one after the other.
* `Runs` — the calls of the handler, and the number of the first line with an error.

## Main results

* `parseLine_spec` — the body of the loop.
* `parseStream_runs` — **every stream is parsed, and as its lines say.**
* `parseString_eq` — a string is parsed like a file with that content.
-/

namespace C2Hat

open Clib

namespace Ini

/-! ### The text of a line -/

/-- The part of a string in front of the first of some characters or of an inline comment, which
has a blank in front of it. -/
def upTo (chars : Option Bytes) : Bool → Bytes → Bytes
  | _, [] => []
  | wasSpace, c :: s =>
    if (∃ cs ∈ chars, c ∈ cs) ∨ (wasSpace = true ∧ c ∈ INI_INLINE_COMMENT_PREFIXES) then []
    else c :: upTo chars (isSpace c) s

/-- What a line says. -/
inductive Meaning
  /-- Blanks or a comment. -/
  | nothing
  /-- Neither a section nor a name and a value. -/
  | malformed
  | head (name : Bytes)
  | pair (name value : Bytes)
  /-- One more value for the name of the previous line. -/
  | more (value : Bytes)
  deriving DecidableEq

/-- What is in the brackets. -/
def headMeaning (text : Bytes) : Meaning :=
  let name := upTo (some (ascii "]")) false text
  match text.drop name.length with
  | c :: _ => if c = 93 then .head name else .malformed
  | [] => .malformed

/-- The name and the value. -/
def pairMeaning (text : Bytes) : Meaning :=
  let name := upTo (some (ascii "=:")) false text
  match text.drop name.length with
  | c :: value =>
    if c = 61 ∨ c = 58 then
      .pair (name.rdropWhile isSpace)
        (((upTo none false value).dropWhile isSpace).rdropWhile isSpace)
    else .malformed
  | [] => .malformed

/-- What a text without its outer blanks says, where `continues` is whether it would be one more
value. -/
def meaning (continues : Bool) : Bytes → Meaning
  | [] => .nothing
  | c :: text =>
    if c ∈ INI_START_COMMENT_PREFIXES then .nothing
    else if continues then .more (c :: text)
    else if c = 91 then headMeaning text
    else pairMeaning (c :: text)

/-- `"\xEF\xBB\xBF"`. -/
def bom : Bytes := [0xEF, 0xBB, 0xBF]

/-- The section and the name of the previous line. -/
structure Context where
  sectionName : Bytes
  prevName : Bytes
  deriving DecidableEq

/-- In front of the first line. -/
def Context.empty : Context := ⟨[], []⟩

/-- What comes of a line. -/
inductive Outcome
  | nothing
  | malformed
  | call (sectionName name value : CStr)
  deriving DecidableEq

/-- What comes of what a line says, and what it leaves for the next lines.  Names are cut. -/
def Context.take (ctx : Context) : Meaning → Context × Outcome
  | .nothing => (ctx, .nothing)
  | .malformed => (ctx, .malformed)
  | .head name => (⟨name.take (MAX_SECTION - 1), []⟩, .nothing)
  | .pair name value =>
    ({ ctx with prevName := name.take (MAX_NAME - 1) },
      .call (CStr.ofBlock ctx.sectionName) (CStr.ofBlock name) (CStr.ofBlock value))
  | .more value =>
    (ctx, .call (CStr.ofBlock ctx.sectionName) (CStr.ofBlock ctx.prevName) (CStr.ofBlock value))

/-- What a chunk says: the part in front of a NUL, without a byte order mark on the first line,
and without the outer blanks. -/
def Context.reads (ctx : Context) (multiline first : Bool) (chunk : Bytes) : Meaning :=
  let s := (CStr.ofBlock chunk).bytes
  let skipped := if first ∧ bom <+: s then 3 else 0
  let s := (s.drop skipped).rdropWhile isSpace
  let lead := s.takeWhile isSpace
  meaning (multiline && decide (ctx.prevName ≠ [] ∧ 0 < skipped + lead.length))
    (s.dropWhile isSpace)

/-- What comes of some chunks. -/
def outcomesFrom (multiline : Bool) : Bool → Context → List Bytes → List Outcome
  | _, _, [] => []
  | first, ctx, chunk :: chunks =>
    let (ctx, outcome) := ctx.take (ctx.reads multiline first chunk)
    outcome :: outcomesFrom multiline false ctx chunks

/-- What comes of the lines of a stream. -/
def outcomes (multiline : Bool) (stream : Bytes) : List Outcome :=
  outcomesFrom multiline true .empty (chunks INI_MAX_LINE stream)

/-! ### The handler -/

variable {σ : Type}

/-- The number of the first line with an error. -/
def firstError (lineno error : ℕ) : ℕ := if error = 0 then lineno else error

/-- What a line does to the error and the user data.  The value and what is behind it are in the
line buffer. -/
def Outcome.Effect (handler : Handler σ) (lineno error : ℕ) (user : σ) :
    Outcome → ℕ → σ → Prop
  | .nothing, error', user' => error' = error ∧ user' = user
  | .malformed, error', user' => error' = firstError lineno error ∧ user' = user
  | .call s n v, error', user' => ∃ behind : Bytes,
      v.bytes.length + behind.length < INI_MAX_LINE ∧
        error' = (if (handler user s n v behind).1 then error else firstError lineno error) ∧
        user' = (handler user s n v behind).2

/-- The lines of a stream, behind number `lineno`. -/
inductive Runs (handler : Handler σ) : ℕ → ℕ → σ → List Outcome → ℕ × σ → Prop
  | nil {lineno error : ℕ} {user : σ} : Runs handler lineno error user [] (error, user)
  | cons {lineno error error' : ℕ} {user user' : σ} {o : Outcome} {os : List Outcome}
      {result : ℕ × σ} (effect : o.Effect handler (lineno + 1) error user error' user')
      (rest : Runs handler (lineno + 1) error' user' os result) :
      Runs handler lineno error user (o :: os) result

/-! ### The strings in the line buffer -/

theorem ok_bind {α β : Type} (a : α) (f : α → Except Fault β) : (Except.ok a >>= f) = f a := rfl

theorem span_nul {s : Bytes} (hs : (0 : UInt8) ∉ s) (rest : Bytes) :
    span (· ≠ 0) (s ++ 0 :: rest) = .ok s.length := by
  refine span_append (fun c hc => decide_eq_true ?_) (by simp) rest
  rintro rfl
  exact hs hc

theorem stringAt_append {s : Bytes} (hs : (0 : UInt8) ∉ s) (pre rest : Bytes) :
    stringAt (pre ++ (s ++ 0 :: rest)) pre.length = .ok (CStr.ofBlock s) := by
  rw [stringAt, List.drop_left, span_nul hs]
  show Except.ok _ = Except.ok _
  rw [List.take_left]

theorem rstripFrom_append (pre : Bytes) (s rest : Bytes) :
    rstripFrom pre.length (pre.length + s.length) (pre ++ (s ++ rest)) =
      .ok (pre ++ (s.rdropWhile isSpace ++
        (List.replicate (s.length - (s.rdropWhile isSpace).length) 0 ++ rest))) := by
  -- each blank at the end becomes a terminator, and joins what is behind it
  induction s using List.reverseRecOn generalizing rest with
  | nil =>
    cases h : pre.length with
    | zero => simp [rstripFrom, pure, Except.pure]
    | succ n => simp [rstripFrom, pure, Except.pure]
  | append_singleton s c ih =>
    have hassoc : ∀ d : UInt8, pre ++ (s ++ [d] ++ rest) = (pre ++ s) ++ d :: rest := by simp
    have hlen : pre.length + (s ++ [c]).length = (pre ++ s).length + 1 := by
      rw [List.length_append, List.length_append, List.length_singleton, Nat.add_assoc]
    rw [hlen, rstripFrom, if_pos (by rw [List.length_append]; omega), hassoc, readAt_append,
      ok_bind]
    by_cases hc : isSpace c = true
    · have hle := (List.rdropWhile_prefix isSpace s).length_le
      rw [if_pos hc, writeAt_append, ok_bind, List.rdropWhile_concat_pos _ _ _ hc]
      simp only [List.append_assoc, List.length_append, List.length_singleton]
      rw [ih (0 :: rest), Nat.sub_add_comm hle, List.replicate_succ']
      simp
    · rw [if_neg hc, List.rdropWhile_concat_neg _ _ _ hc]
      simp [pure, Except.pure]

/-- **`rstrip`** writes terminators over the blanks at the end. -/
theorem rstrip_append {s : Bytes} (hs : (0 : UInt8) ∉ s) (pre rest : Bytes) :
    ∃ zeros : Bytes, rstrip (pre ++ (s ++ 0 :: rest)) pre.length =
        .ok (pre ++ (s.rdropWhile isSpace ++ 0 :: (zeros ++ rest))) ∧
      (s.rdropWhile isSpace).length + zeros.length = s.length := by
  have hle := (List.rdropWhile_prefix isSpace s).length_le
  refine ⟨List.replicate (s.length - (s.rdropWhile isSpace).length) 0, ?_, ?_⟩
  · rw [rstrip, List.drop_left, span_nul hs]
    show rstripFrom _ _ _ = _
    rw [rstripFrom_append, List.append_cons, ← List.replicate_succ', List.replicate_succ]
    rfl
  · rw [List.length_replicate]
    omega

theorem span_blanks (s rest : Bytes) :
    span (fun c => c ≠ 0 && isSpace c) (s ++ 0 :: rest) = .ok (s.takeWhile isSpace).length := by
  have hne : ∀ c, isSpace c = true → c ≠ 0 := by
    rintro c hc rfl
    exact absurd hc (by decide)
  have hlead : ∀ c ∈ s.takeWhile isSpace, (decide (c ≠ 0) && isSpace c) = true := by
    intro c hc
    have hspace := List.mem_takeWhile_imp hc
    rw [hspace, Bool.and_true]
    exact decide_eq_true (hne c hspace)
  conv_lhs => rw [← List.takeWhile_append_dropWhile (p := isSpace) (l := s)]
  cases htext : s.dropWhile isSpace with
  | nil =>
    rw [List.append_nil]
    exact span_append hlead (by simp) rest
  | cons c text =>
    have hc : isSpace c = false := by
      have hhead := List.dropWhile_get_zero_not isSpace s (by rw [htext, List.length_cons]; omega)
      simpa [htext] using hhead
    rw [List.append_assoc, List.cons_append]
    exact span_append hlead (by rw [hc, Bool.and_false]) _

/-- **`lskip`** goes to the first character that is not a blank. -/
theorem lskip_append (pre s rest : Bytes) :
    lskip (pre ++ (s ++ 0 :: rest)) pre.length =
      .ok (pre.length + (s.takeWhile isSpace).length) := by
  rw [lskip, List.drop_left, span_blanks]
  rfl

theorem prefix_upTo (chars : Option Bytes) (wasSpace : Bool) (s : Bytes) :
    upTo chars wasSpace s <+: s := by
  induction s generalizing wasSpace with
  | nil => exact List.nil_prefix
  | cons c s ih =>
    rw [upTo]
    split
    · exact List.nil_prefix
    · exact (List.prefix_cons_inj c).mpr (ih _)

theorem findFrom_append {s : Bytes} (hs : (0 : UInt8) ∉ s) (chars : Option Bytes)
    (wasSpace : Bool) (rest : Bytes) :
    findFrom chars wasSpace (s ++ 0 :: rest) = .ok (upTo chars wasSpace s).length := by
  induction s generalizing wasSpace with
  | nil =>
    rw [List.nil_append, findFrom, if_neg (by simp)]
    rfl
  | cons c s ih =>
    rw [List.mem_cons, not_or] at hs
    have hc : c ≠ 0 := Ne.symm hs.1
    have hfound : (chars.any fun cs => (strchr cs c).isSome) = true ↔ ∃ cs ∈ chars, c ∈ cs := by
      cases chars with
      | none => simp
      | some cs => simp [isSome_strchr_iff hc]
    have hcomment : (wasSpace && (strchr INI_INLINE_COMMENT_PREFIXES c).isSome) = true ↔
        wasSpace = true ∧ c ∈ INI_INLINE_COMMENT_PREFIXES := by
      rw [Bool.and_eq_true, isSome_strchr_iff hc]
    rw [List.cons_append, findFrom, upTo]
    by_cases hstop : (∃ cs ∈ chars, c ∈ cs) ∨
        (wasSpace = true ∧ c ∈ INI_INLINE_COMMENT_PREFIXES)
    · rw [if_pos hstop, if_neg]
      · rfl
      · rintro ⟨-, hfalse, hfalse'⟩
        rcases hstop with h | h
        · rw [hfound.mpr h] at hfalse
          cases hfalse
        · rw [hcomment.mpr h] at hfalse'
          cases hfalse'
    · rw [not_or, ← hfound, ← hcomment, Bool.not_eq_true, Bool.not_eq_true] at hstop
      rw [if_pos ⟨hc, hstop⟩, ih hs.2, if_neg]
      · rfl
      · rw [not_or, ← hfound, ← hcomment, Bool.not_eq_true, Bool.not_eq_true]
        exact hstop

/-- **`find_chars_or_comment`** goes to the end of the part in front. -/
theorem findCharsOrComment_append {s : Bytes} (hs : (0 : UInt8) ∉ s) (chars : Option Bytes)
    (pre rest : Bytes) :
    findCharsOrComment (pre ++ (s ++ 0 :: rest)) pre.length chars =
      .ok (pre.length + (upTo chars false s).length) := by
  rw [findCharsOrComment, List.drop_left, findFrom_append hs]
  rfl

theorem strncpy0From_append {s : Bytes} (hs : (0 : UInt8) ∉ s) (pre rest done old : Bytes)
    (left : ℕ) (hlen : pre.length = done.length) (hleft : left < old.length) :
    strncpy0From (pre ++ (s ++ 0 :: rest)) left done.length (done ++ old) =
      .ok (done ++ (s.take left ++ 0 :: old.drop ((s.take left).length + 1))) := by
  induction left generalizing s pre done old with
  | zero =>
    cases old with
    | nil => exact absurd hleft (by simp)
    | cons c old =>
      rw [strncpy0From, writeAt_append]
      rfl
  | succ left ih =>
    cases old with
    | nil => exact absurd hleft (by simp)
    | cons d old =>
      cases s with
      | nil =>
        rw [strncpy0From, ← hlen, List.nil_append, readAt_append, hlen]
        show writeAt _ _ _ = _
        rw [writeAt_append]
        rfl
      | cons c s =>
        rw [List.mem_cons, not_or] at hs
        have hc : c ≠ 0 := Ne.symm hs.1
        have hih := ih hs.2 (pre ++ [c]) (done ++ [c]) old (by simp [hlen]) (by simpa using hleft)
        rw [strncpy0From, ← hlen, List.cons_append, readAt_append, hlen, ok_bind,
          if_pos hc, writeAt_append, ok_bind]
        simp only [List.append_assoc, List.singleton_append, List.length_append,
          List.length_singleton] at hih
        exact hih

/-- **`strncpy0`** copies what fits, and keeps the size of the array. -/
theorem strncpy0_append {s : Bytes} (hs : (0 : UInt8) ∉ s) (rest : Bytes) {dest : Bytes} {size : ℕ}
    (hsize : 0 < size) (hdest : dest.length = size) :
    ∃ behind : Bytes, strncpy0 dest (s ++ 0 :: rest) size =
        .ok (s.take (size - 1) ++ 0 :: behind) ∧
      (s.take (size - 1) ++ 0 :: behind).length = size := by
  refine ⟨dest.drop ((s.take (size - 1)).length + 1), ?_, ?_⟩
  · exact strncpy0From_append hs [] rest [] dest (size - 1) rfl (by omega)
  · rw [List.length_append, List.length_cons, List.length_drop, List.length_take]
    omega

/-! ### The body of the loop -/

/-- A string in an array of a given size. -/
structure Holds (array : Bytes) (size : ℕ) (s : Bytes) : Prop where
  nulFree : (0 : UInt8) ∉ s
  length : array.length = size
  terminated : ∃ behind, array = s ++ 0 :: behind

/-- The parser has the section and the name of the previous line in its arrays. -/
structure Parser.At (p : Parser) (ctx : Context) : Prop where
  line : p.line.length = INI_MAX_LINE
  sectionName : Holds p.sectionName MAX_SECTION ctx.sectionName
  prevName : Holds p.prevName MAX_NAME ctx.prevName

/-- The parser has done what a line asks for. -/
structure Steps (handler : Handler σ) (p : Parser) (user : σ) (ctx : Context) (m : Meaning)
    (p' : Parser) (user' : σ) : Prop where
  at_take : p'.At (ctx.take m).1
  lineno : p'.lineno = p.lineno
  effect : (ctx.take m).2.Effect handler p.lineno p.error user p'.error user'

theorem holds_strncpy0 {src dest : Bytes} {size : ℕ} (hs : (0 : UInt8) ∉ src) (rest : Bytes)
    (hsize : 0 < size) (hdest : dest.length = size) :
    ∃ array, strncpy0 dest (src ++ 0 :: rest) size = .ok array ∧
      Holds array size (src.take (size - 1)) := by
  obtain ⟨behind, hcopy, hlen⟩ := strncpy0_append hs rest hsize hdest
  exact ⟨_, hcopy, fun h => hs (List.mem_of_mem_take h), hlen, _, rfl⟩

/-- Writing a terminator to the front of an array. -/
theorem holds_clear {array : Bytes} {size : ℕ} (hsize : 0 < size) (h : array.length = size) :
    ∃ array', writeAt array (0 : ℕ) 0 = .ok array' ∧ Holds array' size [] := by
  cases array with
  | nil => exact absurd h (Nat.ne_of_lt hsize)
  | cons c array => exact ⟨0 :: array, writeAt_append [] c 0 array, by simp, h, array, rfl⟩

variable {handler : Handler σ} {user : σ} {p : Parser} {ctx : Context}

theorem At.fail (h : p.At ctx) : p.fail.At ctx := ⟨h.line, h.sectionName, h.prevName⟩

/-- A malformed line. -/
theorem Steps.malformed (h : p.At ctx) : Steps handler p user ctx .malformed p.fail user :=
  ⟨⟨h.line, h.sectionName, h.prevName⟩, rfl, rfl, rfl⟩

/-- **The call of the handler** for a string in the line buffer. -/
theorem call_append {pre value behind : Bytes} (h : p.At ctx) (hvalue : (0 : UInt8) ∉ value)
    (hline : p.line = pre ++ (value ++ 0 :: behind)) (name : CStr) :
    p.call handler name pre.length user =
      let result := handler user (CStr.ofBlock ctx.sectionName) name (CStr.ofBlock value) behind
      .ok (if result.1 then p else p.fail, result.2) := by
  obtain ⟨rest, hsection⟩ := h.sectionName.terminated
  have hstring := stringAt_append h.sectionName.nulFree [] rest
  rw [List.nil_append, List.length_nil] at hstring
  have hbehind : p.line.drop (pre.length + (CStr.ofBlock value).bytes.length + 1) = behind := by
    have hsplit : pre ++ (value ++ 0 :: behind) = (pre ++ value ++ [0]) ++ behind := by simp
    have hlen : pre.length + value.length + 1 = (pre ++ value ++ [0]).length := by simp; omega
    rw [CStr.bytes_ofBlock_of_nulFree hvalue, hline, hsplit, hlen, List.drop_left]
  have hstring' := stringAt_append hvalue pre behind
  rw [← hline] at hstring'
  rw [Parser.call, hsection, hstring, ok_bind, hstring', ok_bind, hbehind]
  rfl

theorem cutComment_append {s : Bytes} (hs : (0 : UInt8) ∉ s) (pre behind : Bytes) :
    ∃ behind' : Bytes, cutComment (pre ++ (s ++ 0 :: behind)) pre.length =
        .ok (pre ++ (upTo none false s ++ 0 :: behind')) ∧
      (upTo none false s).length + behind'.length = s.length + behind.length := by
  obtain ⟨rest, hrest⟩ := prefix_upTo none false s
  rw [cutComment, findCharsOrComment_append hs, ok_bind]
  generalize upTo none false s = text at hrest ⊢
  subst hrest
  have hpos : pre.length + text.length = (pre ++ text).length := by simp
  cases rest with
  | nil =>
    have hsplit : pre ++ (text ++ [] ++ 0 :: behind) = (pre ++ text) ++ 0 :: behind := by simp
    rw [hsplit, hpos, readAt_append, ok_bind, if_neg (by simp), List.append_assoc]
    exact ⟨behind, rfl, by simp⟩
  | cons c rest =>
    have hc : c ≠ 0 := fun h => hs (by simp [h])
    have hsplit : pre ++ (text ++ c :: rest ++ 0 :: behind) =
        (pre ++ text) ++ c :: (rest ++ 0 :: behind) := by simp
    rw [hsplit, hpos, readAt_append, ok_bind, if_pos hc, writeAt_append, List.append_assoc]
    exact ⟨rest ++ 0 :: behind, rfl, by simp; omega⟩

/-- A value and what is behind it. -/
theorem short_value {line pre value behind : Bytes} (hlen : line.length = INI_MAX_LINE)
    (hvalue : (0 : UInt8) ∉ value) (hline : line = pre ++ (value ++ 0 :: behind)) :
    (CStr.ofBlock value).bytes.length + behind.length < INI_MAX_LINE := by
  rw [CStr.bytes_ofBlock_of_nulFree hvalue, ← hlen, hline]
  simp only [List.length_append, List.length_cons]
  omega

/-- The handler is called, with another line buffer and another name of the previous line. -/
theorem Steps.call {line array : Bytes} {m : Meaning} {s n v : CStr} (behind : Bytes)
    (h : Parser.At { p with line := line, prevName := array } (ctx.take m).1)
    (hm : (ctx.take m).2 = .call s n v)
    (hshort : v.bytes.length + behind.length < INI_MAX_LINE) :
    let p' : Parser := { p with line := line, prevName := array }
    Steps handler p user ctx m (if (handler user s n v behind).1 then p' else p'.fail)
      (handler user s n v behind).2 := by
  refine ⟨?_, ?_, ?_⟩
  · split
    · exact h
    · exact ⟨h.line, h.sectionName, h.prevName⟩
  · split <;> rfl
  · rw [hm]
    refine ⟨behind, hshort, ?_, rfl⟩
    split <;> rfl

/-- **A section.** -/
theorem takeSection_spec (handler : Handler σ) (user : σ) {pre text behind : Bytes}
    (h : p.At ctx) (htext : (0 : UInt8) ∉ text)
    (hline : p.line = pre ++ 91 :: (text ++ 0 :: behind)) :
    ∃ p', p.takeSection pre.length = .ok p' ∧
      Steps handler p user ctx (headMeaning text) p' user := by
  have hopen : pre ++ 91 :: (text ++ 0 :: behind) = (pre ++ [91]) ++ (text ++ 0 :: behind) := by
    simp
  have hstart : pre.length + 1 = (pre ++ [91]).length := by simp
  obtain ⟨rest, hrest⟩ := prefix_upTo (some (ascii "]")) false text
  rw [Parser.takeSection, hline, hopen, hstart, findCharsOrComment_append htext, ok_bind,
    headMeaning]
  generalize upTo (some (ascii "]")) false text = name at hrest ⊢
  subst hrest
  rw [List.mem_append, not_or] at htext
  have hsplit : ∀ c tail, (pre ++ [91]) ++ (name ++ c :: tail) =
      ((pre ++ [91]) ++ name) ++ c :: tail := by simp
  have hpos : (pre ++ [91]).length + name.length = ((pre ++ [91]) ++ name).length := by simp; omega
  cases rest with
  | nil =>
    rw [List.append_nil, hsplit, hpos, readAt_append, List.drop_length]
    exact ⟨_, rfl, .malformed h⟩
  | cons c rest =>
    have hassoc : name ++ c :: rest ++ 0 :: behind = name ++ c :: (rest ++ 0 :: behind) := by simp
    rw [hassoc, hsplit, hpos, readAt_append, ok_bind, List.drop_left]
    by_cases hc : c = 93
    · obtain ⟨array, hcopy, hholds⟩ := holds_strncpy0 htext.1 (rest ++ 0 :: behind)
        (by decide) h.sectionName.length
      obtain ⟨cleared, hclear, hempty⟩ := holds_clear (by decide) h.prevName.length
      simp only [if_pos hc]
      rw [writeAt_append, ok_bind, List.append_assoc, List.drop_left, hcopy, ok_bind, hclear,
        ok_bind]
      refine ⟨_, rfl, ⟨?_, hholds, hempty⟩, rfl, rfl, rfl⟩
      have hlen := h.line
      rw [hline] at hlen
      simpa using hlen
    · simp only [if_neg hc]
      exact ⟨_, rfl, .malformed h⟩

/-- **The value is trimmed in place**: a comment and the blanks behind it are overwritten, and the
blanks in front of it stay in the buffer. -/
theorem value_append {value : Bytes} (hvalue : (0 : UInt8) ∉ value) (front behind : Bytes) :
    ∃ cut lead behind' : Bytes,
      cutComment (front ++ (value ++ 0 :: behind)) front.length = .ok cut ∧
      lskip cut front.length = .ok (front ++ lead).length ∧
      rstrip cut (front ++ lead).length = .ok ((front ++ lead) ++
        (((upTo none false value).dropWhile isSpace).rdropWhile isSpace ++ 0 :: behind')) ∧
      (0 : UInt8) ∉ ((upTo none false value).dropWhile isSpace).rdropWhile isSpace ∧
      lead.length + (((upTo none false value).dropWhile isSpace).rdropWhile isSpace).length +
        behind'.length = value.length + behind.length := by
  obtain ⟨behind₁, hcut, hlen⟩ := cutComment_append hvalue front behind
  have htext : (0 : UInt8) ∉ upTo none false value :=
    fun h => hvalue ((prefix_upTo none false value).subset h)
  generalize upTo none false value = text at hcut hlen htext ⊢
  have hdrop : (0 : UInt8) ∉ text.dropWhile isSpace :=
    fun h => htext ((List.dropWhile_suffix _).subset h)
  obtain ⟨zeros, hstrip, hlen'⟩ :=
    rstrip_append hdrop (front ++ text.takeWhile isSpace) behind₁
  have hlead : (front ++ text.takeWhile isSpace) ++ (text.dropWhile isSpace ++ 0 :: behind₁) =
      front ++ (text ++ 0 :: behind₁) := by
    conv_rhs => rw [← List.takeWhile_append_dropWhile (p := isSpace) (l := text)]
    simp only [List.append_assoc]
  rw [hlead] at hstrip
  refine ⟨_, text.takeWhile isSpace, zeros ++ behind₁, hcut, ?_, hstrip,
    nulFree_rdropWhile hdrop isSpace, ?_⟩
  · rw [lskip_append, List.length_append]
  · have hwhole := congrArg List.length (List.takeWhile_append_dropWhile (p := isSpace) (l := text))
    rw [List.length_append] at hwhole
    rw [List.length_append]
    omega

/-- **A name and a value.** -/
theorem takePair_spec {pre text behind : Bytes} (h : p.At ctx) (htext : (0 : UInt8) ∉ text)
    (hline : p.line = pre ++ (text ++ 0 :: behind)) :
    ∃ p' user', p.takePair handler pre.length user = .ok (p', user') ∧
      Steps handler p user ctx (pairMeaning text) p' user' := by
  obtain ⟨rest, hrest⟩ := prefix_upTo (some (ascii "=:")) false text
  rw [Parser.takePair, hline, findCharsOrComment_append htext, ok_bind, pairMeaning]
  generalize upTo (some (ascii "=:")) false text = key at hrest ⊢
  subst hrest
  rw [List.mem_append, not_or] at htext
  have hpos : pre.length + key.length = (pre ++ key).length := by simp
  cases rest with
  | nil =>
    have hsplit : pre ++ (key ++ [] ++ 0 :: behind) = (pre ++ key) ++ 0 :: behind := by simp
    rw [hsplit, hpos, readAt_append, List.append_nil, List.drop_length]
    exact ⟨_, _, rfl, .malformed h⟩
  | cons c value =>
    have hsplit : ∀ d, pre ++ (key ++ d :: value ++ 0 :: behind) =
        (pre ++ key) ++ d :: (value ++ 0 :: behind) := by simp
    rw [hsplit, hpos, readAt_append, ok_bind, List.drop_left]
    by_cases hc : c = 61 ∨ c = 58
    · simp only [if_pos hc]
      rw [writeAt_append, ok_bind, List.append_assoc]
      obtain ⟨zeros, hstrip, hlen⟩ := rstrip_append htext.1 pre (value ++ 0 :: behind)
      have hvalue : (0 : UInt8) ∉ value := fun h => htext.2 (List.mem_cons_of_mem c h)
      have hwhole : pre ++ ((key.rdropWhile isSpace) ++ 0 :: (zeros ++ (value ++ 0 :: behind))) =
          (pre ++ (key.rdropWhile isSpace ++ 0 :: zeros)) ++ (value ++ 0 :: behind) := by simp
      have hstart : (pre ++ key).length + 1 =
          (pre ++ (key.rdropWhile isSpace ++ 0 :: zeros)).length := by
        simp only [List.length_append, List.length_cons]
        omega
      rw [hstrip, ok_bind, hwhole, hstart]
      have hname := nulFree_rdropWhile htext.1 isSpace
      generalize key.rdropWhile isSpace = name at hlen hname ⊢
      obtain ⟨cut, lead, behind', hcut, hskip, hstrip', hvalue', hlen'⟩ :=
        value_append hvalue (pre ++ (name ++ 0 :: zeros)) behind
      rw [hcut, ok_bind, hskip, ok_bind, hstrip', ok_bind]
      generalize ((upTo none false value).dropWhile isSpace).rdropWhile isSpace = text'
        at hlen' hvalue' ⊢
      -- the name is in front of it
      have hfront : (pre ++ (name ++ 0 :: zeros) ++ lead) ++ (text' ++ 0 :: behind') =
          pre ++ (name ++ 0 :: (zeros ++ lead ++ (text' ++ 0 :: behind'))) := by simp
      obtain ⟨array, hcopy, hholds⟩ := holds_strncpy0 hname
        (zeros ++ lead ++ (text' ++ 0 :: behind')) (by decide) h.prevName.length
      rw [hfront, List.drop_left, hcopy, ok_bind, stringAt_append hname, ok_bind, ← hfront]
      have hat : Parser.At { p with
          line := (pre ++ (name ++ 0 :: zeros) ++ lead) ++ (text' ++ 0 :: behind')
          prevName := array } { ctx with prevName := name.take (MAX_NAME - 1) } := by
        refine ⟨?_, h.sectionName, hholds⟩
        have hlength := h.line
        rw [hline] at hlength
        simp only [List.length_append, List.length_cons] at hlength ⊢
        omega
      rw [call_append hat hvalue' rfl]
      exact ⟨_, _, rfl, .call _ hat rfl (short_value hat.line hvalue' rfl)⟩
    · simp only [if_neg hc]
      exact ⟨_, _, rfl, .malformed h⟩

/-- The text of the first line. -/
theorem skipBom_append (s behind : Bytes) :
    skipBom (s ++ 0 :: behind) = .ok (if bom <+: s then 3 else 0) := by
  have hread₀ : ∀ (a : UInt8) (t : Bytes), readAt (a :: t) 0 = .ok a := fun _ _ => rfl
  have hread₁ : ∀ (a b : UInt8) (t : Bytes), readAt (a :: b :: t) 1 = .ok b := fun _ _ _ => rfl
  have hread₂ : ∀ (a b c : UInt8) (t : Bytes), readAt (a :: b :: c :: t) 2 = .ok c :=
    fun _ _ _ _ => rfl
  rw [skipBom]
  rcases s with - | ⟨a, - | ⟨b, - | ⟨c, s⟩⟩⟩
  · simp [hread₀, ok_bind, bom, pure, Except.pure]
  · simp [hread₀, hread₁, ok_bind, bom, pure, Except.pure]
  · by_cases hb : b = 0xBB
    · simp [hread₀, hread₁, hread₂, ok_bind, bom, pure, Except.pure, hb]
    · simp [hread₀, hread₁, ok_bind, bom, pure, Except.pure, hb]
  · by_cases ha : a = 0xEF
    · by_cases hb : b = 0xBB
      · by_cases hc : c = 0xBF
        · simp [hread₀, hread₁, hread₂, ok_bind, bom, pure, Except.pure, ha, hb, hc]
        · simp [hread₀, hread₁, hread₂, ok_bind, bom, pure, Except.pure, ha, hb, hc, Ne.symm hc]
      · simp [hread₀, hread₁, ok_bind, bom, pure, Except.pure, ha, hb, Ne.symm hb]
    · simp [hread₀, ok_bind, bom, pure, Except.pure, ha, Ne.symm ha]

/-- A chunk as a string, with what is behind its terminator. -/
theorem exists_string (chunk behind : Bytes) :
    ∃ behind' : Bytes, chunk ++ 0 :: behind = (CStr.ofBlock chunk).bytes ++ 0 :: behind' := by
  by_cases h : (0 : UInt8) ∈ chunk
  · obtain ⟨s, t, rfl, hs⟩ := List.eq_append_cons_of_mem h
    refine ⟨t ++ 0 :: behind, ?_⟩
    rw [CStr.bytes_ofBlock_append hs]
    simp
  · exact ⟨behind, by rw [CStr.bytes_ofBlock_of_nulFree h]⟩

theorem Holds.first {array s : Bytes} {size : ℕ} (h : Holds array size s) :
    ∃ c, readAt array (0 : ℕ) = .ok c ∧ (c ≠ 0 ↔ s ≠ []) := by
  obtain ⟨behind, rfl⟩ := h.terminated
  cases s with
  | nil => exact ⟨0, readAt_append [] 0 behind, by simp⟩
  | cons c s =>
    have hc : c ≠ 0 := fun h' => h.nulFree (h' ▸ List.mem_cons_self)
    exact ⟨c, readAt_append [] c (s ++ 0 :: behind), by simp [hc]⟩

theorem Holds.string {array s : Bytes} {size : ℕ} (h : Holds array size s) :
    stringAt array 0 = .ok (CStr.ofBlock s) := by
  obtain ⟨behind, rfl⟩ := h.terminated
  exact stringAt_append h.nulFree [] behind

/-- **The branches** of the loop. -/
theorem takeText_spec (multiline : Bool) {pre text behind : Bytes} (h : p.At ctx)
    (htext : (0 : UInt8) ∉ text) (hline : p.line = pre ++ (text ++ 0 :: behind)) :
    ∃ p' user', p.takeText multiline handler pre.length user = .ok (p', user') ∧
      Steps handler p user ctx
        (meaning (multiline && decide (ctx.prevName ≠ [] ∧ 0 < pre.length)) text) p' user' := by
  obtain ⟨prev, hprev, hprev'⟩ := h.prevName.first
  rw [Parser.takeText, hprev]
  cases text with
  | nil =>
    rw [hline, List.nil_append, readAt_append, ok_bind, ok_bind, if_pos (by decide)]
    exact ⟨_, _, rfl, h, rfl, rfl, rfl⟩
  | cons c text =>
    have hc : c ≠ 0 := fun h => htext (h ▸ List.mem_cons_self)
    rw [hline, List.cons_append, readAt_append, ok_bind, ok_bind, meaning]
    by_cases hcomment : c ∈ INI_START_COMMENT_PREFIXES
    · rw [if_pos ((isSome_strchr_iff hc).mpr hcomment), if_pos hcomment]
      exact ⟨_, _, rfl, h, rfl, rfl, rfl⟩
    · rw [if_neg (mt (isSome_strchr_iff hc).mp hcomment), if_neg hcomment]
      by_cases hmore : (multiline && decide (ctx.prevName ≠ [] ∧ 0 < pre.length)) = true
      · have hmore' := hmore
        rw [Bool.and_eq_true, decide_eq_true_eq, ← hprev'] at hmore'
        rw [if_pos ⟨hmore'.1, hmore'.2.1, hc, hmore'.2.2⟩, if_pos hmore, h.prevName.string,
          ok_bind, call_append h htext hline]
        exact ⟨_, _, rfl, .call _ h rfl (short_value h.line htext hline)⟩
      · have hmore' := hmore
        rw [Bool.and_eq_true, decide_eq_true_eq, ← hprev'] at hmore'
        rw [if_neg fun h => hmore' ⟨h.1, h.2.1, h.2.2.2⟩, if_neg hmore]
        by_cases hopen : c = 91
        · subst hopen
          rw [if_pos rfl, if_pos rfl]
          obtain ⟨p', hp', hsteps⟩ := takeSection_spec handler user h
            (fun h => htext (List.mem_cons_of_mem _ h)) hline
          rw [hp', ok_bind]
          exact ⟨p', user, rfl, hsteps⟩
        · rw [if_neg hopen, if_neg hopen, if_pos hc]
          exact takePair_spec h htext hline

/-- **The body of the loop** does what the line in the buffer asks for, without an access
outside of an array. -/
theorem parseLine_spec (multiline : Bool) (handler : Handler σ) (user : σ)
    {chunk behind : Bytes} (h : p.At ctx) (hline : p.line = chunk ++ 0 :: behind) :
    ∃ p' user', parseLine multiline handler p user = .ok (p', user') ∧
      Steps handler { p with lineno := p.lineno + 1 } user ctx
        (ctx.reads multiline (decide (p.lineno = 0)) chunk) p' user' := by
  obtain ⟨behind, hchunk⟩ := exists_string chunk behind
  rw [hchunk] at hline
  have hs := (CStr.ofBlock chunk).nulFree
  rw [Context.reads]
  generalize (CStr.ofBlock chunk).bytes = s at hline hs ⊢
  -- where the text starts
  have hstart : textStart (p.lineno + 1) p.line =
      .ok (if decide (p.lineno = 0) = true ∧ bom <+: s then 3 else 0) := by
    rw [textStart, hline, skipBom_append]
    by_cases hfirst : p.lineno = 0
    · simp [hfirst]
    · simp [hfirst, pure, Except.pure]
  have hskipped : ∃ pre, s = pre ++ s.drop pre.length ∧
      (if decide (p.lineno = 0) = true ∧ bom <+: s then 3 else 0) = pre.length := by
    split
    · next h => exact ⟨bom, (List.prefix_iff_eq_append.mp h.2).symm, rfl⟩
    · exact ⟨[], rfl, rfl⟩
  obtain ⟨pre, hpre, hlen⟩ := hskipped
  rw [hlen] at hstart ⊢
  generalize s.drop pre.length = body at hpre ⊢
  subst hpre
  rw [List.mem_append, not_or] at hs
  rw [List.append_assoc] at hline
  have hbody := nulFree_rdropWhile hs.2 isSpace
  obtain ⟨zeros, hstrip, hzeros⟩ := rstrip_append hs.2 pre behind
  have hlead : body.rdropWhile isSpace = (body.rdropWhile isSpace).takeWhile isSpace ++
      (body.rdropWhile isSpace).dropWhile isSpace := by
    rw [List.takeWhile_append_dropWhile]
  have hskip := lskip_append pre (body.rdropWhile isSpace) (zeros ++ behind)
  generalize body.rdropWhile isSpace = stripped at *
  generalize stripped.takeWhile isSpace = lead at *
  generalize stripped.dropWhile isSpace = text at *
  subst hlead
  have hassoc : pre ++ ((lead ++ text) ++ 0 :: (zeros ++ behind)) =
      (pre ++ lead) ++ (text ++ 0 :: (zeros ++ behind)) := by simp
  rw [← List.length_append] at hskip
  rw [List.mem_append, not_or] at hbody
  -- the parser with what is in the line buffer now
  have hat : Parser.At { p with
      line := (pre ++ lead) ++ (text ++ 0 :: (zeros ++ behind))
      lineno := p.lineno + 1 } ctx := by
    refine ⟨?_, h.sectionName, h.prevName⟩
    have hlength := h.line
    rw [hline] at hlength
    simp only [List.length_append, List.length_cons] at hlength hzeros ⊢
    omega
  rw [parseLine]
  simp only
  rw [hstart, ok_bind, hline, hstrip, ok_bind, hskip, ok_bind, hassoc, ← List.length_append]
  obtain ⟨p', user', htake, hsteps⟩ := takeText_spec multiline hat hbody.2 rfl
  exact ⟨p', user', htake, hsteps.at_take, hsteps.lineno, hsteps.effect⟩

/-! ### The loop -/

/-- **The loop over the lines**, from any state of the parser. -/
theorem parseLoop_runs (multiline : Bool) (user : σ) {fuel : ℕ} {stream : Bytes}
    (hfuel : stream.length < fuel) (h : p.At ctx) :
    ∃ result, parseLoop multiline fgets handler fuel p stream user = .ok (some result) ∧
      Runs handler p.lineno p.error user
        (outcomesFrom multiline (decide (p.lineno = 0)) ctx (chunks INI_MAX_LINE stream))
        result := by
  induction fuel generalizing stream p user ctx with
  | zero => exact absurd hfuel (Nat.not_lt_zero _)
  | succ fuel ih =>
    rw [parseLoop]
    by_cases hstream : stream = []
    · rw [hstream, fgets, if_pos rfl, chunks_nil]
      exact ⟨_, rfl, .nil⟩
    · obtain ⟨behind, hread, hlen⟩ := fgets_spec p.line (by decide : 0 < INI_MAX_LINE)
        h.line.ge hstream
      have hat : Parser.At { p with
          line := nextLine (INI_MAX_LINE - 1) stream ++ 0 :: behind } ctx :=
        ⟨hlen.trans h.line, h.sectionName, h.prevName⟩
      obtain ⟨p', user', hparse, hsteps⟩ := parseLine_spec multiline handler user hat rfl
      have hpos : 0 < INI_MAX_LINE - 1 := by decide
      have hshort := length_drop_nextLine_lt hpos hstream
      obtain ⟨result, hloop, hruns⟩ := ih user'
        (Nat.lt_of_lt_of_le hshort (Nat.le_of_lt_succ hfuel)) hsteps.at_take
      rw [hread, ok_bind]
      simp only
      rw [hparse, ok_bind, chunks_cons (by decide) hstream]
      have hlineno : p'.lineno = p.lineno + 1 := hsteps.lineno
      rw [hlineno, decide_eq_false (Nat.succ_ne_zero _)] at hruns
      exact ⟨result, hloop, .cons hsteps.effect hruns⟩

theorem at_init {line : Bytes} (hline : line.length = INI_MAX_LINE) :
    (Parser.init line).At .empty :=
  ⟨hline, ⟨List.not_mem_nil, List.length_replicate, List.replicate (MAX_SECTION - 1) 0, rfl⟩,
    List.not_mem_nil, List.length_replicate, List.replicate (MAX_NAME - 1) 0, rfl⟩

/-- **Every stream is parsed**, whatever it holds and whatever is in the line buffer at the
start: no access is outside of an array, and the handler is called as the lines say. -/
theorem parseStream_runs (multiline : Bool) (handler : Handler σ) (user : σ) (stream : Bytes)
    {line : Bytes} (hline : line.length = INI_MAX_LINE) {fuel : ℕ} (hfuel : stream.length < fuel) :
    ∃ result, parseStream multiline fgets line fuel stream handler user = .ok (some result) ∧
      Runs handler 0 0 user (outcomes multiline stream) result :=
  parseLoop_runs multiline user hfuel (at_init hline)

/-! ### Strings as streams -/

theorem readerStringFrom_append (ctx : Bytes) (left : ℕ) (done old : Bytes)
    (hold : left < old.length) :
    readerStringFrom left ctx done.length (done ++ old) =
      .ok (done ++ (nextLine left ctx ++ 0 :: old.drop ((nextLine left ctx).length + 1)),
        ctx.drop (nextLine left ctx).length) := by
  induction ctx generalizing left done old with
  | nil =>
    cases old with
    | nil => exact absurd hold (Nat.not_lt_zero _)
    | cons d old =>
      rw [nextLine_nil, readerStringFrom, writeAt_append]
      · rfl
      · simp
  | cons c ctx ih =>
    cases left with
    | zero =>
      cases old with
      | nil => exact absurd hold (Nat.not_lt_zero _)
      | cons d old =>
        rw [readerStringFrom, writeAt_append]
        · rfl
        · simp
    | succ left =>
      rcases old with - | ⟨d, - | ⟨d', old⟩⟩
      · exact absurd hold (Nat.not_lt_zero _)
      · exact absurd hold (by simp)
      · have hassoc : done ++ c :: d' :: old = (done ++ [c]) ++ d' :: old := by simp
        have hlen : done.length + 1 = (done ++ [c]).length := by simp
        rw [readerStringFrom, writeAt_append, ok_bind, nextLine, hassoc, hlen]
        by_cases hc : c = lineFeed
        · rw [if_pos hc, if_pos hc, writeAt_append, List.append_assoc]
          rfl
        · rw [if_neg hc, if_neg hc, ih left (done ++ [c]) (d' :: old) (by simpa using hold),
            List.append_assoc]
          rfl

/-- **The reader for strings** does what `fgets` does. -/
theorem readerString_eq {buffer : Bytes} {num : ℕ} (hnum : 2 ≤ num) (hfits : num ≤ buffer.length)
    (ctx : Bytes) : readerString buffer num ctx = fgets buffer num ctx := by
  have hlen := length_nextLine_le (num - 1) ctx
  rw [readerString, fgets]
  by_cases hctx : ctx = []
  · rw [if_pos (.inl hctx), if_pos hctx]
    rfl
  · have hread := readerStringFrom_append ctx (num - 1) [] buffer (by omega)
    rw [List.nil_append, List.length_nil] at hread
    rw [if_neg (not_or.mpr ⟨hctx, by omega⟩), if_neg hctx, if_pos (by omega), hread]
    rfl

theorem parseLoop_congr (multiline : Bool) {fuel : ℕ} {stream : Bytes} (h : p.At ctx) :
    parseLoop multiline readerString handler fuel p stream user =
      parseLoop multiline fgets handler fuel p stream user := by
  induction fuel generalizing stream p user ctx with
  | zero => rfl
  | succ fuel ih =>
    rw [parseLoop, parseLoop, readerString_eq (by decide) h.line.ge]
    by_cases hstream : stream = []
    · rw [hstream, fgets, if_pos rfl]
      rfl
    · obtain ⟨behind, hread, hlen⟩ := fgets_spec p.line (by decide : 0 < INI_MAX_LINE)
        h.line.ge hstream
      have hat : Parser.At { p with
          line := nextLine (INI_MAX_LINE - 1) stream ++ 0 :: behind } ctx :=
        ⟨hlen.trans h.line, h.sectionName, h.prevName⟩
      obtain ⟨p', user', hparse, hsteps⟩ := parseLine_spec multiline handler user hat rfl
      rw [hread, ok_bind, ok_bind]
      simp only
      rw [hparse, ok_bind, ok_bind]
      exact ih hsteps.at_take

end Ini

end C2Hat
