/-!
# The checksum of a payload

The 32-bit cyclic redundancy check of IEEE 802.3, in its reflected form.  A
block's payload is summed up by it in the diagnostic record of the block, so
that two ledgers of what was sent can be compared without the bytes.  The
checksum never gates progress.

* `Checksum.shift` — one step of the division, by one bit
* `Checksum.absorb` — the eight steps that take in one octet
* `Checksum.crc32` — the checksum of a string of octets
-/

namespace Blockwise.Checksum

/-- The generator polynomial, lowest power first, without its leading term. -/
def polynomial : UInt32 := 0xEDB88320

/-- One step of the division: shifts out the lowest bit, and subtracts the
polynomial when that bit was set. -/
def shift (r : UInt32) : UInt32 :=
  if r &&& 1 == 1 then (r >>> 1) ^^^ polynomial else r >>> 1

/-- Takes one octet into the remainder `r`, lowest bit first. -/
def absorb (r : UInt32) (octet : UInt8) : UInt32 :=
  shift (shift (shift (shift (shift (shift (shift (shift (r ^^^ octet.toUInt32))))))))

/-- The checksum of `bytes`: the remainder starts with all bits set and is
complemented at the end. -/
def crc32 (bytes : ByteArray) : UInt32 :=
  bytes.foldl absorb 0xFFFFFFFF ^^^ 0xFFFFFFFF

/-- The check value of this checksum. -/
example : crc32 "123456789".toUTF8 = 0xCBF43926 := by decide +kernel

end Blockwise.Checksum
