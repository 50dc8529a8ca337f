/-!
# Numbers as octets

Numbers travel in options as octets, the highest first, in a width that the
option fixes.  Writing keeps the number as far as the width goes
(`value_digits`).
-/

namespace Blockwise.Octets

/-- The `width` low octets of `n`, the highest first. -/
def digits : (width n : Nat) → List UInt8
  | 0, _ => []
  | width + 1, n => UInt8.ofNat (n >>> (8 * width)) :: digits width n

/-- The number that the octets write, the highest first. -/
def value (octets : List UInt8) : Nat := octets.foldl (fun n o => 256 * n + o.toNat) 0

/-- The `width` low octets of `n` as they lie in a message. -/
def ofNat (width n : Nat) : ByteArray := (digits width n).toByteArray

/-- The number that lies in a message as these octets. -/
def toNat (octets : ByteArray) : Nat := value octets.data.toList

theorem length_digits (width n : Nat) : (digits width n).length = width := by
  induction width with
  | zero => rfl
  | succ width ih => simp [digits, ih]

/-- Octets read after a number lie below it. -/
theorem foldl_eq_add_value (os : List UInt8) (a : Nat) :
    os.foldl (fun n o => 256 * n + o.toNat) a = (a <<< (8 * os.length)) + value os := by
  induction os generalizing a with
  | nil => simp [value]
  | cons o os ih =>
    rw [value, List.foldl_cons, List.foldl_cons, ih, ih (256 * 0 + o.toNat), List.length_cons]
    simp only [Nat.shiftLeft_eq, Nat.mul_add, Nat.pow_add]
    grind

/-- The octets write the number, as far as the width goes. -/
theorem value_digits (width n : Nat) : value (digits width n) = n % (1 <<< (8 * width)) := by
  induction width with
  | zero => simp [digits, value, Nat.mod_one]
  | succ width ih =>
    have step := Nat.mod_mul (x := n) (a := 2 ^ (8 * width)) (b := 2 ^ 8)
    rw [digits, value, List.foldl_cons, foldl_eq_add_value, ih, length_digits]
    simp only [Nat.shiftLeft_eq, Nat.shiftRight_eq_div_pow, Nat.mul_add, Nat.pow_add] at step ⊢
    simp only [UInt8.toNat_ofNat', Nat.one_mul, Nat.mul_zero, Nat.zero_add, Nat.mul_one]
    rw [step]
    grind

end Blockwise.Octets
