import Blockwise.Block.Basic
import Blockwise.Upload.Error
import Blockwise.Window
/-!
# Notices

What an engine has to say while it works.  A `Notice` is what there is to be
told, as a value; its severity and its wording are functions of it.

* `Level` — how urgent a notice is
* `Notice` — what is told
* `Notice.text` — the line of the log
-/

namespace Blockwise

/-- How urgent a notice is, the most urgent first. -/
inductive Level where
  | error
  | warn
  | info
  | debug
  | trace
deriving DecidableEq, Ord, Repr

/-- Whether a log of this level tells of notices of level `l`. -/
def Level.admits (max l : Level) : Bool := (compare l max).isLE

/-- What an engine tells. -/
inductive Notice where
  /-- An upload was refused because another is active. -/
  | busy (path : String)
  /-- An upload was refused because there is no connection. -/
  | disconnected
  /-- An upload was refused because an argument is unacceptable. -/
  | invalid (reason : Invalid)
  /-- An upload was admitted. -/
  | sending (bytes : Nat) (path : String) (blocks : UInt32) (size : Size) (window : UInt32)
      (token : Token)
  /-- A block was handed to the message layer. -/
  | dispatched (digest : Digest) (total : UInt32)
  /-- The same, as an inspector tells it. -/
  | inspected (digest : Digest)
  /-- A completion was of no concern to the active session. -/
  | ignored (num : UInt32)
  /-- The server wants more after the last block. -/
  | continuedAfterLast
  /-- The server applied the body at a block that is not the last. -/
  | appliedEarly (code : Code) (num total : UInt32)
  /-- The server applied the body. -/
  | applied (code : Code) (bytes : Nat) (blocks : UInt32)
  /-- The server rejected a block. -/
  | rejected (num : UInt32) (attempts : Option Attempts) (code : Code)
  /-- A block had no response. -/
  | timedOut (num : UInt32) (attempts : Option Attempts)
  /-- The caller gave the upload up. -/
  | cancelled

namespace Notice

/-- How urgent the notice is. -/
def level : Notice → Level
  | continuedAfterLast | rejected .. | timedOut .. => .error
  | busy _ | disconnected | invalid _ | appliedEarly .. => .warn
  | sending .. | applied .. | cancelled => .info
  | dispatched .. | ignored _ => .debug
  | inspected _ => .trace

/-! ## Wording -/

/-- The number in hexadecimal digits, in lower case and without leading zeros. -/
def hex (n : Nat) : String := String.ofList (Nat.toDigits 16 n)

/-- The number in hexadecimal digits, at least eight of them. -/
def hex8 (n : Nat) : String :=
  let digits := Nat.toDigits 16 n
  String.ofList (List.replicate (8 - digits.length) '0' ++ digits)

/-- The octets of a token as a list of hexadecimal numbers. -/
def tokenText (t : Token) : String :=
  "[" ++ ", ".intercalate (t.octets.map fun o => hex o.toNat) ++ "]"

/-- A count of attempts that may be missing. -/
def attemptsText : Option Attempts → String
  | none => "None"
  | some a => s!"Some({a.count})"

/-- The line of the log: the activity that tells it, and what it tells. -/
def text : Notice → String
  | busy path => s!"[Engine::admit] refusing upload to /{path}; another upload is in progress"
  | disconnected => "[Engine::admit] no server connection"
  | invalid reason => s!"[Engine::admit] {reason.message}"
  | sending bytes path blocks size window token =>
    s!"[Engine::admit] sending {bytes} bytes to /{path} in {blocks} blocks of {size.bytes} bytes " ++
      s!"(window {window}, token {tokenText token})"
  | dispatched digest total => s!"[Engine::fill] {digest.summary total}"
  | inspected d =>
    s!"[LogDigests::dispatched] block {d.num} offset={d.offset} len={d.len} " ++
      s!"crc32={hex8 d.crc.toNat}"
  | ignored num =>
    s!"[Engine::step] ignoring completion for block {num} of a session that is over " ++
      "or never sent it"
  | continuedAfterLast =>
    s!"[Engine::step] server answered {Code.continued.dotted} to the last block; " ++
      "no final status will follow"
  | appliedEarly code num total =>
    s!"[Engine::step] server answered {code.dotted} to block {num} of {total}; " ++
      "treating the upload as applied"
  | applied code bytes blocks =>
    s!"[Engine::step] upload applied ({code.dotted}): {bytes} bytes in {blocks} blocks"
  | rejected num attempts code =>
    s!"[Engine::step] server rejected block {num} (sent {attemptsText attempts} times): " ++
      code.dotted
  | timedOut num attempts =>
    s!"[Engine::step] no response to block {num} (sent {attemptsText attempts} times)"
  | cancelled => "[Engine::cancel] upload cancelled"

end Notice

end Blockwise
