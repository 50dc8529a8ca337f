import Blockwise.Checksum
import Blockwise.Block.Header
/-!
# Blocks of a body

`Block.cut?` takes block `num` out of a body.  Its offset, its length and its
`more` flag follow from the number, the size and the length of the body and
from nothing else, so everyone who cuts the same body agrees on them.

A `Digest` is the diagnostic record of a block: what was sent under which
number, with the checksum of the payload in place of the payload.

* `Block.cut?` — block `num` of a body, if the body reaches that far
* `Size.blockLength` — how many octets block `num` carries, without cutting it
* `Digest.summary` — the record as text for people
-/

namespace Blockwise

/-- One block of a body. -/
structure Block where
  /-- The fields of the block option that goes with it. -/
  header : Header
  /-- Where the payload starts within the body. -/
  offset : Nat
  /-- The octets that the block carries. -/
  payload : ByteArray

/-- The diagnostic record of a block. -/
structure Digest where
  num : UInt32
  /-- Where the payload starts within the body. -/
  offset : Nat
  /-- The number of octets in the payload. -/
  len : Nat
  more : Bool
  /-- The checksum of the payload. -/
  crc : UInt32
deriving DecidableEq, Ord, Repr

namespace Block

/-- Block `num` of `body`, or `none` when it would start past the end. -/
def cut? (body : ByteArray) (size : Size) (num : UInt32) : Option Block :=
  let offset := num.toNat * size.bytes
  if offset < body.size then
    let stop := offset + min size.bytes (body.size - offset)
    some
      { header := { num, more := stop < body.size, size }
        offset
        payload := body.extract offset stop }
  else
    none

/-- The diagnostic record of the block. -/
def digest (b : Block) : Digest where
  num := b.header.num
  offset := b.offset
  len := b.payload.size
  more := b.header.more
  crc := Checksum.crc32 b.payload

end Block

/-- How many octets block `num` of a body of `len` octets carries: none past the
end, and otherwise a full block or what is left. -/
def Size.blockLength (s : Size) (len : Nat) (num : UInt32) : Nat :=
  min s.bytes (len - num.toNat * s.bytes)

/-- The digests of blocks `0` to `blocksFor len`, of which the last is past the
end of the body. -/
def Block.digests (body : ByteArray) (size : Size) : List (Option Digest) :=
  (List.range (size.blocksFor body.size + 1)).map fun i =>
    (cut? body size (UInt32.ofNat i)).map digest

/-- The record as text, counting blocks from 1 out of `total`. -/
def Digest.summary (d : Digest) (total : UInt32) : String :=
  s!"block {d.num + 1}/{total} (offset={d.offset}, len={d.len}, more={d.more})"

/-! ## Cutting -/

namespace Block

variable {body : ByteArray} {size : Size} {num : UInt32} {b : Block}

/-- A block exists exactly when it starts inside the body. -/
theorem cut?_eq_none_iff : cut? body size num = none ↔ body.size ≤ num.toNat * size.bytes := by
  simp [cut?]

theorem num_of_cut? (h : cut? body size num = some b) : b.header.num = num := by
  simp only [cut?, Option.ite_none_right_eq_some, Option.some.injEq] at h
  obtain ⟨_, rfl⟩ := h
  rfl

/-- Where a block starts is written in its header. -/
theorem offset_of_cut? (h : cut? body size num = some b) :
    b.offset = b.header.num.toNat * b.header.size.bytes := by
  simp only [cut?, Option.ite_none_right_eq_some, Option.some.injEq] at h
  obtain ⟨_, rfl⟩ := h
  rfl

/-- The payload has the length that `blockLength` foretells. -/
theorem size_payload_of_cut? (h : cut? body size num = some b) :
    b.payload.size = size.blockLength body.size num := by
  simp only [cut?, Option.ite_none_right_eq_some, Option.some.injEq] at h
  obtain ⟨_, rfl⟩ := h
  simp only [ByteArray.size_extract, Size.blockLength]
  omega

end Block

end Blockwise
