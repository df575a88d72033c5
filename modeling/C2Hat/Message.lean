import C2Hat.Lib.Printf
import C2Hat.Trim

/-!
# Messages

`src/lib/message/message.c` and the limits of `src/c2hat.h`: building a message
from a format, writing it as a frame, and reading one frame back.

The `content` and `user` fields of a `C2HMessage` are `char` arrays inside a
zeroed structure; all that is ever read of them is the C string they hold, so
that is what the model keeps.  Writing behind the end of a field is a fault.
Allocations are taken to succeed.

## Main definitions

* `C2HMessageType`, `C2HMessage` — the data.
* `Message.getUser`, `Message.getType` — the parts of the decoder.
* `C2HMessage.create`, `C2HMessage.format` — a message from a format, a frame from
  a message.
* `C2HMessage.decode`, `C2HMessage.parse` — what `C2HMessage_get` does with one frame:
  where the parts of the message are, and the message.
-/

namespace C2Hat

open Clib

/-! ### Limits -/

/-- Maximum length of a nickname, in characters. -/
def kMaxNicknameLength : ℕ := 15

/-- Maximum size of a nickname in bytes: `kMaxNicknameLength * sizeof(wchar_t)`. -/
def kMaxNicknameSize : ℕ := 60

/-- Maximum size of the data that can be sent, including the NULL terminator. -/
def kBufferSize : ℕ := 1536

/-! ### Types -/

/-- `enum MessageType`. -/
inductive C2HMessageType
  | null | nick | auth | help | msg | list | quit | ok | err | log | admin
  deriving DecidableEq, Repr, Inhabited

/-- The command a type travels under; the other types are never sent. -/
def C2HMessageType.commandPrefix : C2HMessageType → Option Bytes
  | .nick => some (ascii "/nick")
  | .msg => some (ascii "/msg")
  | .log => some (ascii "/log")
  | .ok => some (ascii "/ok")
  | .err => some (ascii "/err")
  | .quit => some (ascii "/quit")
  | _ => none

/-- The types that are sent. -/
def wireTypes : List C2HMessageType := [.nick, .msg, .quit, .ok, .err, .log]

/-- A chat message. -/
structure C2HMessage where
  /-- The command. -/
  type : C2HMessageType
  /-- The text, without the user tag. -/
  content : CStr
  /-- The user the text is from, when there is a tag. -/
  user : CStr
  deriving DecidableEq, Inhabited

/-! ### The user tag -/

/-- `'['`. -/
abbrev kUserNameStartTag : UInt8 := 91

/-- `']'`. -/
abbrev kUserNameEndTag : UInt8 := 93

/-- `Message_getUser(message, type, user, length)`: the text between the first
opening bracket and the next closing one, when it is not empty and not longer
than `length`.  The result is what is copied to `user`; the terminator is written
behind it. -/
def Message.getUser (message : Bytes) (type : C2HMessageType) (length : ℕ) : Option Bytes :=
  if type = .msg ∨ type = .log then
    match strchr message kUserNameStartTag with
    | none => none
    | some i =>
      let start := message.drop (i + 1)
      match strchr start kUserNameEndTag with
      | none => none
      | some userLength =>
        if 0 < userLength ∧ userLength ≤ length then some (start.take userLength) else none
  else none

/-- The string in the zeroed user field after `Message_getUser`, given what it found.
The terminator behind the user has to be in the field, too. -/
def Message.writeUser (found : Option Bytes) : Except Fault CStr :=
  let user := found.getD []
  if user.length < kMaxNicknameSize then .ok (CStr.ofBlock user) else .error .outOfBounds

/-! ### Creating messages -/

/-- How far the content starts behind the tag: the brackets and one space. -/
def tagSkip (user : CStr) : ℕ := if user.bytes.length > 0 then user.bytes.length + 3 else 0

/-- The part of `C2HMessage_create` behind the formatting: take the user out of
the buffer and copy the rest. -/
def C2HMessage.ofBuffer (type : C2HMessageType) (buffer : CStr) : Except Fault C2HMessage :=
  let found :=
    if type = .msg ∨ type = .log then Message.getUser buffer.bytes type kMaxNicknameSize else none
  (Message.writeUser found).map fun user =>
    { type := type
      user := user
      content := CStr.ofBlock (buffer.bytes.drop (tagSkip user)) }

/-- `C2HMessage_create(type, format, ...)`. -/
def C2HMessage.create (type : C2HMessageType) (fmt : Bytes) (args : List CStr) :
    Except Fault C2HMessage :=
  (vsnprintf kBufferSize fmt args).bind (C2HMessage.ofBuffer type)

/-! ### Formatting messages -/

/-- `Message_format(type, dest, size, format, ...)`: the string in `dest`
afterwards, given the one it held before. -/
def Message.format (type : C2HMessageType) (dest : CStr) (size : ℕ) (fmt : Bytes)
    (args : List CStr) : Except Fault CStr :=
  match type.commandPrefix with
  | none => .ok dest
  | some commandPrefix =>
    (vsnprintf size fmt args).bind fun buffer =>
      if buffer.bytes.length > 0 then
        vsnprintf size (ascii "%s %s") [CStr.ofBlock commandPrefix, buffer]
      else
        vsnprintf size (ascii "%s") [CStr.ofBlock commandPrefix]

/-- `C2HMessage_format(message, dest, size)`: the string written to `dest`.  The
function returns its length plus one. -/
def C2HMessage.format (message : C2HMessage) (dest : CStr) (size : ℕ) : Except Fault CStr :=
  if message.user.bytes.length > 0 then
    Message.format message.type dest size (ascii "[%s] %s") [message.user, message.content]
  else
    Message.format message.type dest size (ascii "%s") [message.content]

/-! ### Reading a frame -/

/-- The order in which `Message_getType` tries the commands, and whether a command
must have a content. -/
def Message.typePrefixes : List (C2HMessageType × Bytes × Bool) :=
  [(.ok, ascii "/ok", false), (.msg, ascii "/msg", true), (.log, ascii "/log", true),
    (.err, ascii "/err", true), (.quit, ascii "/quit", false), (.nick, ascii "/nick", true)]

/-- The tests of `Message_getType` from one of them on.  A command without its
mandatory content does not end the search, but the pointer has moved past it. -/
def Message.getTypeFrom (length : ℕ) :
    List (C2HMessageType × Bytes × Bool) → Bytes → C2HMessageType × Bytes
  | [], message => (.null, message)
  | (type, command, mandatory) :: tests, message =>
    -- RMATCH: the length is that of the original string
    if length ≥ command.length ∧ message.take command.length = command then
      let rest := message.drop command.length
      if mandatory = false ∨ rest.length > 0 then (type, rest)
      else Message.getTypeFrom length tests rest
    else Message.getTypeFrom length tests message

/-- `Message_getType(&message)`: the type, and where the pointer is left. -/
def Message.getType (message : Bytes) : C2HMessageType × Bytes :=
  Message.getTypeFrom message.length Message.typePrefixes message

/-- How far `C2HMessage_get` comes with the data of a frame before it writes to the new
message. -/
inductive Decoding
  /-- The command is not known: there is no message. -/
  | unknown
  /-- A command without its optional content. -/
  | bare (type : C2HMessageType)
  /-- The user that was found is copied, and then the bytes from `cursor` to `stop`,
  two offsets into the data, which has been trimmed in place. -/
  | copy (type : C2HMessageType) (found : Option Bytes) (block : Bytes) (cursor stop : ℕ)
  deriving DecidableEq

/-- `C2HMessage_get` on the data `Message_get` returned, up to the copies.  The end
pointer is the one taken before the data was trimmed. -/
def C2HMessage.decode (data : CStr) : Decoding :=
  let typed := Message.getType data.bytes
  let type := typed.1
  if type = .null then .unknown
  else
    let cursor := data.bytes.length - typed.2.length
    let block := data.bytes.take cursor ++ trim (typed.2 ++ [0]) defaultSeps
    if (type = .ok ∨ type = .quit) ∧ strlen (block.drop cursor) = 0 then .bare type
    else
      let found :=
        if type = .msg ∨ type = .log then
          Message.getUser (CStr.ofBlock block).bytes type kMaxNicknameSize
        else none
      .copy type found block (cursor + tagSkip (CStr.ofBlock (found.getD []))) data.bytes.length

/-- What `C2HMessage_get` does with the data `Message_get` returned.  A content that
fills its field has no terminator there; the model keeps what is in the field. -/
def C2HMessage.parse (data : CStr) : Except Fault (Option C2HMessage) :=
  match C2HMessage.decode data with
  | .unknown => .ok none
  | .bare type => .ok (some ⟨type, CStr.empty, CStr.empty⟩)
  | .copy type found block cursor stop =>
    (Message.writeUser found).bind fun user =>
      -- memcpy(message->content, cursor, end - cursor)
      if stop < cursor then .error .badLength
      else if kBufferSize < stop - cursor then .error .outOfBounds
      else .ok (some ⟨type, CStr.ofBlock ((block.drop cursor).take (stop - cursor)), user⟩)

end C2Hat
