import Mathlib.Algebra.Order.Ring.Nat
import Blockwise.Message.Block1
/-!
# The block option, written and read

A block option is made twice over.  `Header.value` packs the fields of a block into one
word by shifts, from the exponent of its size; `Block1.number` adds up the number that
the octets of the option write, from its size in octets.  They are the same number
(`Block1.number_eq`), of which the low four bits are the flag and the exponent, and the rest
is the block number.

**What is read back.**  Of the block number 28 bits fit into the option, and everything
else is kept (`Block1.decode_encode`).  A number of 20 bits, which is all that an upload
uses, is read back as it is and leaves the highest octet empty.
-/

namespace Blockwise

namespace Octets

theorem size_ofNat (width n : ℕ) : (ofNat width n).size = width := by
  rw [ofNat, List.size_toByteArray, length_digits]

/-- A number that fits is read back. -/
theorem toNat_ofNat {width n : ℕ} (h : n < 2 ^ (8 * width)) : toNat (ofNat width n) = n := by
  rw [toNat, ofNat, List.data_toByteArray, value_digits, Nat.one_shiftLeft, Nat.mod_eq_of_lt h]

end Octets

namespace Size

theorem log2_bytes (s : Size) : Nat.log2 s.bytes = s.szx.val + 4 := by
  rw [bytes, Nat.one_shiftLeft, Nat.log2_two_pow]

theorem szx_le (s : Size) : s.szx.val ≤ 6 := Nat.le_of_lt_succ s.szx.isLt

end Size

namespace Header

variable (h : Header)

/-- The low four bits: the flag, and the exponent of the size. -/
def lowBits : ℕ := (if h.more then 8 else 0) + h.size.szx.val

theorem lowBits_lt : h.lowBits < 2 ^ 4 := by
  have hszx := h.size.szx_le
  unfold lowBits
  split <;> omega

theorem toNat_lowBits :
    ((h.more.toUInt32 <<< 3) ||| UInt32.ofNat h.size.szx.val).toNat = h.lowBits := by
  have hall : ∀ (more : Bool) (szx : Fin 7), ((more.toUInt32 <<< 3) ||| UInt32.ofNat szx.val).toNat
      = (if more then 8 else 0) + szx.val := by decide
  exact hall h.more h.size.szx

/-- The block number starts above the four low bits, and loses what does not fit. -/
theorem toNat_value : h.value.toNat = 16 * (h.num.toNat % 2 ^ 28) + h.lowBits := by
  have hnum : (h.num <<< 4).toNat = (h.num.toNat % 2 ^ 28) <<< 4 := by
    rw [UInt32.toNat_shiftLeft, Nat.shiftLeft_eq, Nat.shiftLeft_eq]
    show h.num.toNat * 2 ^ 4 % 2 ^ 32 = _
    omega
  rw [value, UInt32.or_assoc, UInt32.toNat_or, toNat_lowBits, hnum,
    ← Nat.shiftLeft_add_eq_or_of_lt h.lowBits_lt, Nat.shiftLeft_eq, Nat.mul_comm]

/-- With a number of 20 bits, the fields need 24. -/
theorem toNat_value_lt (hnum : h.num.toNat ≤ maxNum) : h.value.toNat < 2 ^ 24 := by
  have hlow := h.lowBits_lt
  rw [toNat_value]
  unfold maxNum at hnum
  omega

end Header

namespace Block1

/-- Both ways to make the option make the same. -/
theorem number_eq (h : Header) : number h = h.value.toNat := by
  have hsize : UInt32.size = 16 * 2 ^ 28 := rfl
  rw [number, h.toNat_value, Header.lowBits, Size.log2_bytes, Nat.add_sub_cancel, Nat.add_assoc,
    hsize, Nat.mul_mod_mul_left]

theorem ofNumber_value (h : Header) :
    ofNumber h.value.toNat = { h with num := UInt32.ofNat (h.num.toNat % 2 ^ 28) } := by
  obtain ⟨num, more, ⟨szx, hszx⟩⟩ := h
  rw [Header.toNat_value, Header.lowBits, ofNumber]
  congr 1
  · congr 1
    dsimp only
    split <;> omega
  · cases more <;> simp <;> omega
  · congr 2
    dsimp only
    split <;> omega

/-- The number of a block keeps its low 28 bits, and everything else is read back. -/
theorem decode_encode (h : Header) :
    decode (encode h) = { h with num := UInt32.ofNat (h.num.toNat % 2 ^ 28) } := by
  rw [decode, encode, number_eq, Octets.toNat_ofNat h.value.toNat_lt, ofNumber_value]

/-- A number of 20 bits is read back with the rest. -/
theorem decode_encode_of_le {h : Header} (hnum : h.num.toNat ≤ Header.maxNum) :
    decode (encode h) = h := by
  unfold Header.maxNum at hnum
  rw [decode_encode, Nat.mod_eq_of_lt (by omega), UInt32.ofNat_toNat]

end Block1

end Blockwise
