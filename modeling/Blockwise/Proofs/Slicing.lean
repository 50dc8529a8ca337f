import Mathlib.Algebra.Order.Group.Nat
import Blockwise.Block.Basic
/-!
# Slicing loses nothing

The number of blocks of a body and the cut of one block are computed apart: the
one divides and rounds up, the other multiplies and compares.  They agree for
every length.  A block exists exactly when its number is below the number of
blocks, and it says that more follow exactly when it is not the last
(`Block.cut?_of_lt`).

The payloads of the first blocks, one after the other, are the start of the body
(`assemble_payloads`), and those of all blocks are the body
(`assemble_all_payloads`).
-/

namespace Blockwise

/-- The octets of the pieces, one piece after the other. -/
def assemble (pieces : List ByteArray) : ByteArray := pieces.foldl (· ++ ·) ByteArray.empty

/-- The octets of block `i` of a body: those from `i` full blocks on, up to the
end of one more, as far as the body goes. -/
def Block.payloadAt (body : ByteArray) (size : Size) (i : ℕ) : ByteArray :=
  body.extract (i * size.bytes) (min ((i + 1) * size.bytes) body.size)

/-! ## Counting blocks -/

namespace Size

variable {s : Size} {len i : ℕ}

/-- A number is below the number of blocks exactly when the block would start
inside the body. -/
theorem lt_blocksFor_iff : i < s.blocksFor len ↔ i * s.bytes < len := by
  have hle := Nat.le_div_iff_mul_le s.bytes_pos (x := i + 1) (y := len + s.bytes - 1)
  rw [Nat.add_mul, Nat.one_mul] at hle
  have hpos := s.bytes_pos
  rw [blocksFor]
  omega

theorem le_blocksFor_mul : len ≤ s.blocksFor len * s.bytes :=
  Nat.not_lt.1 fun h => lt_irrefl _ (lt_blocksFor_iff.2 h)

theorem blocksFor_pos (h : len ≠ 0) : 0 < s.blocksFor len :=
  lt_blocksFor_iff.2 (by omega)

end Size

/-! ## Cutting -/

variable {body : ByteArray} {size : Size} {num : UInt32}

/-- A block below the number of blocks, in full: more blocks follow it unless it
is the last. -/
theorem Block.cut?_of_lt (h : num.toNat < size.blocksFor body.size) :
    Block.cut? body size num = some
      { header := { num, more := decide (num.toNat + 1 ≠ size.blocksFor body.size), size }
        offset := num.toNat * size.bytes
        payload := Block.payloadAt body size num.toNat } := by
  have hoff := Size.lt_blocksFor_iff.1 h
  have hstop : num.toNat * size.bytes + min size.bytes (body.size - num.toNat * size.bytes) =
      min ((num.toNat + 1) * size.bytes) body.size := by
    rw [Nat.succ_mul]
    omega
  have hmore : min ((num.toNat + 1) * size.bytes) body.size < body.size ↔
      num.toNat + 1 ≠ size.blocksFor body.size := by
    -- The block ends inside the body exactly when the next one starts there.
    rw [min_lt_iff, or_iff_left (lt_irrefl _), ← Size.lt_blocksFor_iff]
    omega
  simp only [Block.cut?, if_pos hoff, hstop, hmore, Block.payloadAt]

theorem Block.cut?_eq_none_of_le (h : size.blocksFor body.size ≤ num.toNat) :
    Block.cut? body size num = none :=
  Block.cut?_eq_none_iff.2 (Nat.not_lt.1 fun hlt => absurd (Size.lt_blocksFor_iff.2 hlt) (by omega))

/-! ## Putting together -/

theorem assemble_concat (pieces : List ByteArray) (piece : ByteArray) :
    assemble (pieces ++ [piece]) = assemble pieces ++ piece := by
  rw [assemble, List.foldl_append]
  rfl

/-- The payloads of the first `k` blocks are the start of the body. -/
theorem assemble_payloads (k : ℕ) :
    assemble ((List.range k).map (Block.payloadAt body size)) =
      body.extract 0 (min (k * size.bytes) body.size) := by
  induction k with
  | zero => simp [assemble]
  | succ k ih =>
    rw [List.range_succ, List.map_append, List.map_singleton, assemble_concat, ih,
      Block.payloadAt]
    have hle : k * size.bytes ≤ (k + 1) * size.bytes := Nat.mul_le_mul_right _ (Nat.le_succ k)
    rcases Nat.le_total (k * size.bytes) body.size with h | h
    · rw [min_eq_left h]
      exact (ByteArray.extract_eq_extract_append_extract (k * size.bytes) (Nat.zero_le _)
        (le_min hle h)).symm
    · -- Past the end of the body both sides have stopped growing.
      have hempty : body.extract (k * size.bytes) body.size = ByteArray.empty := by
        rw [ByteArray.extract_eq_empty_iff, min_self]
        exact h
      rw [min_eq_right h, min_eq_right (h.trans hle), hempty, ByteArray.append_empty]

/-- The payloads of all blocks are the body. -/
theorem assemble_all_payloads :
    assemble ((List.range (size.blocksFor body.size)).map (Block.payloadAt body size)) = body := by
  rw [assemble_payloads, min_eq_right Size.le_blocksFor_mul, ByteArray.extract_zero_size]

end Blockwise
