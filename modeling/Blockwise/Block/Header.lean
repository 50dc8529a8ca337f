import Blockwise.Block.Size
/-!
# The fields of a block option

Every message of a block-wise upload says which block it carries, whether more
blocks follow, and how large a full block is.  `Header.value` packs the three
into one word, `num | more | szx` from the high end: the number is shifted past
the four low bits, and whatever does not fit into 32 bits is lost.

The wire form of the option, and its reader, are in `Blockwise.Message.Block1`.
-/

namespace Blockwise

/-- The three fields of a block option. -/
structure Header where
  /-- The position of the block within the body, from 0. -/
  num : UInt32
  /-- Whether more blocks follow this one. -/
  more : Bool
  /-- The size of every full block of the body. -/
  size : Size
deriving DecidableEq, Ord, Repr, Inhabited

namespace Header

/-- The largest block number that the option can carry: it has 20 bits. -/
def maxNum : Nat := 0xFFFFF

/-- The fields as one word: `num`, then one bit for `more`, then three bits of
size exponent. -/
def value (h : Header) : UInt32 :=
  (h.num <<< 4) ||| (h.more.toUInt32 <<< 3) ||| UInt32.ofNat h.size.szx.val

/-- Block 3 of a body in blocks of 128 octets, with more to come. -/
example : (Header.mk 3 true ⟨3⟩).value = 59 := by decide

end Header

end Blockwise
