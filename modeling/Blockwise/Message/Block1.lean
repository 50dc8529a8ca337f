import Blockwise.Block.Header
import Blockwise.Message.Octets
/-!
# The block option on the wire

In a message the block option is always four octets long.  They write the
number `16 · num + 8 · more + szx`, of which the four octets keep the low 32
bits.  A reader takes the three fields apart again; the exponent 7 names no
size and is read as the largest.
-/

namespace Blockwise.Block1

/-- The number that the option's octets write. -/
def number (h : Header) : Nat :=
  16 * h.num.toNat % UInt32.size + (if h.more then 8 else 0) + (Nat.log2 h.size.bytes - 4)

/-- The octets of the option. -/
def encode (h : Header) : ByteArray := Octets.ofNat 4 (number h)

/-- The fields that a number stands for. -/
def ofNumber (n : Nat) : Header where
  num := UInt32.ofNat (n / 16)
  more := n / 8 % 2 = 1
  size := ⟨⟨min (n % 8) 6, by omega⟩⟩

/-- The fields that the octets of the option say. -/
def decode (octets : ByteArray) : Header := ofNumber (Octets.toNat octets)

end Blockwise.Block1
