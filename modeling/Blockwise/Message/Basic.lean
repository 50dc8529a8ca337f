import Std.Data.ExtTreeMap
import Blockwise.Block.Header
import Blockwise.Message.Block1
import Blockwise.Method
import Blockwise.Path
import Blockwise.Token.Basic
/-!
# Messages

A request as it is handed to the message layer: a confirmable message with a
code, a token, options and a payload.  An option has a number and may occur
several times; the options of a message are kept in the order of their numbers.

**Two ways to set an option.**  The path of a request lies in several
occurrences of one option, a segment each, and setting a path *appends* its
segments.  The content format and the block option occur once, and setting them
*replaces* what was there.

* `Message.request` — a message with nothing set
* `Message.setPath`, `Message.setFormat`, `Message.setBlock`,
  `Message.setPayload` — the four setters
* `Message.block?` — the block option, read back
-/

namespace Blockwise

/-- What a message asks of the message layer on the other side. -/
inductive MessageKind where
  /-- It is to be acknowledged, and is sent again until it is. -/
  | confirmable
  /-- It is sent once, and not acknowledged. -/
  | nonConfirmable
  /-- It acknowledges a confirmable message. -/
  | acknowledgement
  /-- It says that a message could not be processed. -/
  | reset
deriving DecidableEq, Repr

/-- The number of an option. -/
abbrev OptionNumber := Nat

namespace OptionNumber

/-- One segment of the path. -/
def uriPath : OptionNumber := 11

/-- The content format of the payload. -/
def contentFormat : OptionNumber := 12

/-- The block of a request body that the payload is. -/
def block1 : OptionNumber := 27

end OptionNumber

/-- The occurrences of each option, in the order of the option numbers. -/
abbrev Options := Std.ExtTreeMap OptionNumber (List ByteArray)

/-- A request on its way to the message layer. -/
structure Message where
  kind : MessageKind
  /-- The number that the message layer matches acknowledgements by; the layer
  assigns a real one when it sends the message. -/
  id : UInt16
  /-- The method of the request, as a code. -/
  code : Code
  /-- The token that the response will repeat. -/
  token : Token
  options : Options := ∅
  payload : ByteArray := ByteArray.empty

namespace Message

/-- A request with neither options nor payload. -/
def request (method : Method) (token : Token) : Message where
  kind := .confirmable
  id := 0
  code := method.code
  token

/-- Appends the segments of `path` to those set before. -/
def setPath (path : String) (m : Message) : Message :=
  let values := (Path.segments path).map String.toUTF8
  { m with options := m.options.alter .uriPath fun before => some (before.getD [] ++ values) }

/-- Sets the content format. -/
def setFormat (format : ContentFormat) (m : Message) : Message :=
  { m with options := m.options.insert .contentFormat [Octets.ofNat 2 format.number.toNat] }

/-- Sets the block option. -/
def setBlock (header : Header) (m : Message) : Message :=
  { m with options := m.options.insert .block1 [Block1.encode header] }

/-- Sets the payload. -/
def setPayload (payload : ByteArray) (m : Message) : Message :=
  { m with payload }

/-- The block option, if the message has one. -/
def block? (m : Message) : Option Header :=
  m.options[OptionNumber.block1]?.bind fun values => values.head?.map Block1.decode

end Message

end Blockwise
