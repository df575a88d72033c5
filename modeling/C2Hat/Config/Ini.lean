import C2Hat.Config.Settings
import C2Hat.Lib.LineReader
import C2Hat.Lib.Terminated

/-!
# The INI library

`src/lib/ini/ini.c`, with every access to the line buffer and to the arrays for the section and
for the name of the previous line.  A pointer into the line buffer is an offset.

The options of the library are those of its header: the line buffer is on the stack, inline
comments and a byte order mark are recognised, and an error does not stop the parser.
`INI_ALLOW_MULTILINE` is a parameter, as the server is built without it.

## Main definitions

* `Ini.parseLine` — the body of the loop over the lines.
* `Ini.parseStream`, `Ini.parse`, `Ini.parseString` — the functions of the header.
-/

namespace C2Hat

open Clib

namespace Ini

/-- `MAX_SECTION` and `MAX_NAME`: the sizes of the arrays. -/
def MAX_SECTION : ℕ := 50
def MAX_NAME : ℕ := 50

/-- `INI_START_COMMENT_PREFIXES` and `INI_INLINE_COMMENT_PREFIXES`. -/
def INI_START_COMMENT_PREFIXES : Bytes := ascii ";#"
def INI_INLINE_COMMENT_PREFIXES : Bytes := ascii ";"

/-! ### Strings in the line buffer -/

/-- The string at an offset. -/
def stringAt (b : Bytes) (s : ℕ) : Except Fault CStr := do
  let len ← span (· ≠ 0) (b.drop s)
  return CStr.ofBlock ((b.drop s).take len)

/-- The loop of `rstrip(s)`, from `p` on. -/
def rstripFrom (s : ℕ) : ℕ → Bytes → Except Fault Bytes
  | 0, line => return line
  | p + 1, line =>
    if p + 1 > s then do
      let c ← readAt line p
      if isSpace c then
        let line ← writeAt line p 0
        rstripFrom s p line
      else return line
    else return line

/-- `rstrip(s)`. -/
def rstrip (line : Bytes) (s : ℕ) : Except Fault Bytes := do
  let len ← span (· ≠ 0) (line.drop s)
  rstripFrom s (s + len) line

/-- `lskip(s)`. -/
def lskip (line : Bytes) (s : ℕ) : Except Fault ℕ := do
  let n ← span (fun c => c ≠ 0 && isSpace c) (line.drop s)
  return s + n

/-- The loop of `find_chars_or_comment`: how far it goes. -/
def findFrom (chars : Option Bytes) : Bool → Bytes → Except Fault ℕ
  | _, [] => .error .outOfBounds
  | wasSpace, c :: rest =>
    let found := chars.any fun chars => (strchr chars c).isSome
    let comment := wasSpace && (strchr INI_INLINE_COMMENT_PREFIXES c).isSome
    if c ≠ 0 ∧ found = false ∧ comment = false then
      (findFrom chars (isSpace c) rest).map (· + 1)
    else .ok 0

/-- `find_chars_or_comment(s, chars)`, where `chars` may be `NULL`. -/
def findCharsOrComment (line : Bytes) (s : ℕ) (chars : Option Bytes) : Except Fault ℕ := do
  let n ← findFrom chars false (line.drop s)
  return s + n

/-- The loop of `strncpy0`, from `i` on, with `left` bytes left in front of the last one. -/
def strncpy0From (src : Bytes) : (left i : ℕ) → Bytes → Except Fault Bytes
  | 0, i, dest => writeAt dest i 0
  | left + 1, i, dest => do
    let c ← readAt src i
    if c ≠ 0 then
      let dest ← writeAt dest i c
      strncpy0From src left (i + 1) dest
    else writeAt dest i 0

/-- `strncpy0(dest, src, size)`. -/
def strncpy0 (dest src : Bytes) (size : ℕ) : Except Fault Bytes :=
  strncpy0From src (size - 1) 0 dest

/-! ### A line -/

/-- The handler: its result for a section, a name and a value, and the user data.  What is in the
line buffer behind the terminator of the value is in its reach, too. -/
abbrev Handler (σ : Type) := σ → CStr → CStr → CStr → Bytes → Bool × σ

/-- The variables of `ini_parse_stream`. -/
structure Parser where
  line : Bytes
  sectionName : Bytes
  prevName : Bytes
  lineno : ℕ
  error : ℕ

/-- The variables in front of the loop; the line buffer is not initialised. -/
def Parser.init (line : Bytes) : Parser where
  line := line
  sectionName := List.replicate MAX_SECTION 0
  prevName := List.replicate MAX_NAME 0
  lineno := 0
  error := 0

/-- `error = lineno`, unless there has been an error. -/
def Parser.fail (p : Parser) : Parser :=
  { p with error := if p.error = 0 then p.lineno else p.error }

variable {σ τ : Type}

/-- `HANDLER(user, section, name, value)`. -/
def Parser.call (p : Parser) (handler : Handler σ) (name : CStr) (value : ℕ) (user : σ) :
    Except Fault (Parser × σ) := do
  let sectionName ← stringAt p.sectionName 0
  let text ← stringAt p.line value
  let behind := p.line.drop (value + text.bytes.length + 1)
  let (ok, user) := handler user sectionName name text behind
  return (if ok then p else p.fail, user)

/-- Whether there is a byte order mark, as the number of its bytes. -/
def skipBom (line : Bytes) : Except Fault ℕ := do
  let c₀ ← readAt line 0
  if c₀ = 0xEF then
    let c₁ ← readAt line 1
    if c₁ = 0xBB then
      let c₂ ← readAt line 2
      if c₂ = 0xBF then return 3
      else return 0
    else return 0
  else return 0

/-- Where the text of a line starts. -/
def textStart (lineno : ℕ) (line : Bytes) : Except Fault ℕ :=
  if lineno = 1 then skipBom line else return 0

/-- A line that starts with a bracket. -/
def Parser.takeSection (p : Parser) (start : ℕ) : Except Fault Parser := do
  let stop ← findCharsOrComment p.line (start + 1) (some (ascii "]"))
  let c ← readAt p.line stop
  if c = 93 then
    let line ← writeAt p.line stop 0
    let sectionName ← strncpy0 p.sectionName (line.drop (start + 1)) MAX_SECTION
    let prevName ← writeAt p.prevName (0 : ℕ) 0
    return { p with line := line, sectionName := sectionName, prevName := prevName }
  else return p.fail

/-- Write a terminator over the start of an inline comment. -/
def cutComment (line : Bytes) (value : ℕ) : Except Fault Bytes := do
  let stop ← findCharsOrComment line value none
  let c ← readAt line stop
  if c ≠ 0 then writeAt line stop 0 else return line

/-- A line that must be a name and a value. -/
def Parser.takePair (p : Parser) (handler : Handler σ) (start : ℕ) (user : σ) :
    Except Fault (Parser × σ) := do
  let stop ← findCharsOrComment p.line start (some (ascii "=:"))
  let c ← readAt p.line stop
  if c = 61 ∨ c = 58 then
    let line ← writeAt p.line stop 0
    let line ← rstrip line start
    let line ← cutComment line (stop + 1)
    let value ← lskip line (stop + 1)
    let line ← rstrip line value
    let prevName ← strncpy0 p.prevName (line.drop start) MAX_NAME
    let name ← stringAt line start
    Parser.call { p with line := line, prevName := prevName } handler name value user
  else return (p.fail, user)

/-- The branches for a line whose text starts at `start`. -/
def Parser.takeText (p : Parser) (multiline : Bool) (handler : Handler σ) (start : ℕ) (user : σ) :
    Except Fault (Parser × σ) := do
  let c ← readAt p.line start
  let prev ← readAt p.prevName (0 : ℕ)
  if (strchr INI_START_COMMENT_PREFIXES c).isSome then return (p, user)
  else if multiline ∧ prev ≠ 0 ∧ c ≠ 0 ∧ start > 0 then
    let name ← stringAt p.prevName 0
    p.call handler name start user
  else if c = 91 then
    let p ← p.takeSection start
    return (p, user)
  else if c ≠ 0 then p.takePair handler start user
  else return (p, user)

/-- The body of the loop, with the line in the buffer. -/
def parseLine (multiline : Bool) (handler : Handler σ) (p : Parser) (user : σ) :
    Except Fault (Parser × σ) := do
  let p := { p with lineno := p.lineno + 1 }
  let start ← textStart p.lineno p.line
  let line ← rstrip p.line start
  let start ← lskip line start
  Parser.takeText { p with line := line } multiline handler start user

/-! ### A stream -/

/-- A reader in the style of `fgets`. -/
abbrev Reader (τ : Type) := Bytes → ℕ → τ → Except Fault (Option (Bytes × τ))

/-- The loop over the lines, with some fuel. -/
def parseLoop (multiline : Bool) (reader : Reader τ) (handler : Handler σ) :
    ℕ → Parser → τ → σ → Except Fault (Option (ℕ × σ))
  | 0, _, _, _ => return none
  | fuel + 1, p, stream, user => do
    let next ← reader p.line INI_MAX_LINE stream
    match next with
    | none => return some (p.error, user)
    | some (line, stream) =>
      let (p, user) ← parseLine multiline handler { p with line := line } user
      parseLoop multiline reader handler fuel p stream user

/-- `ini_parse_stream(reader, stream, handler, user)`, where `line` is what is in the line buffer
at the start. -/
def parseStream (multiline : Bool) (reader : Reader τ) (line : Bytes) (fuel : ℕ) (stream : τ)
    (handler : Handler σ) (user : σ) : Except Fault (Option (ℕ × σ)) :=
  parseLoop multiline reader handler fuel (.init line) stream user

/-- `ini_parse(filename, handler, user)`, where the file may not be there. -/
def parse (multiline : Bool) (line : Bytes) (fuel : ℕ) (file : Option Bytes)
    (handler : Handler σ) (user : σ) : Except Fault (Option (ℤ × σ)) :=
  match file with
  | none => return some (-1, user)
  | some content => do
    let result ← parseStream multiline fgets line fuel content handler user
    return result.map fun r => (r.1, r.2)

/-! ### Strings as streams -/

/-- The loop of `ini_reader_string`, with `left` bytes left in front of the last one: the buffer,
and what is left of the string. -/
def readerStringFrom : (left : ℕ) → Bytes → ℕ → Bytes → Except Fault (Bytes × Bytes)
  | left + 1, c :: ctx, i, str => do
    let str ← writeAt str i c
    if c = lineFeed then
      let str ← writeAt str (i + 1 : ℕ) 0
      return (str, ctx)
    else readerStringFrom left ctx (i + 1) str
  | _, ctx, i, str => do
    let str ← writeAt str i 0
    return (str, ctx)

/-- `ini_reader_string(str, num, stream)`. -/
def readerString : Reader Bytes := fun str num ctx =>
  if ctx = [] ∨ num < 2 then return none
  else do
    let result ← readerStringFrom (num - 1) ctx 0 str
    return some result

/-- `ini_parse_string(string, handler, user)`. -/
def parseString (multiline : Bool) (line : Bytes) (fuel : ℕ) (string : CStr)
    (handler : Handler σ) (user : σ) : Except Fault (Option (ℕ × σ)) :=
  parseStream multiline readerString line fuel string.bytes handler user

end Ini

end C2Hat
