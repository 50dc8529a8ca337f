/-!
# Block sizes

A body is sent in blocks of one size, and only seven sizes are permitted: the
powers of two from 16 to 1024.

**The exponent is the size.**  A `Size` holds the three-bit exponent that
travels in the block option, so a value of the type *is* a permitted size and
nothing has to check it again.  The number of octets is derived from it, and
`Size.ofBytes?` is the only way in from a number of octets.
-/

namespace Blockwise

/-- A permitted block size. -/
structure Size where
  /-- The size exponent: a block holds `2 ^ (szx + 4)` octets. -/
  szx : Fin 7
deriving DecidableEq, Ord, Repr

namespace Size

/-- The number of octets in a full block. -/
def bytes (s : Size) : Nat := 1 <<< (s.szx.val + 4)

/-- All permitted sizes, in ascending order. -/
def all : List Size := (List.finRange 7).map Size.mk

/-- The largest permitted size, 1024 octets. -/
def largest : Size := ⟨6⟩

instance : Inhabited Size := ⟨largest⟩

/-- The size of `n` octets, if that is permitted. -/
def ofBytes? (n : Nat) : Option Size := all.find? (·.bytes = n)

/-- The number of blocks of this size that it takes to carry `len` octets. -/
def blocksFor (s : Size) (len : Nat) : Nat := (len + s.bytes - 1) / s.bytes

/-! ## What the sizes are -/

theorem mem_all (s : Size) : s ∈ all := by
  simp [all, List.mem_finRange]

theorem sixteen_le_bytes (s : Size) : 16 ≤ s.bytes := by
  rw [bytes, Nat.one_shiftLeft]
  exact Nat.pow_le_pow_right (n := 2) (by decide) (Nat.le_add_left 4 s.szx.val)

theorem bytes_pos (s : Size) : 0 < s.bytes := Nat.lt_of_lt_of_le (by decide) s.sixteen_le_bytes

theorem bytes_le (s : Size) : s.bytes ≤ 1024 := by
  have h : s.szx.val + 4 ≤ 10 := Nat.add_le_add_right (Nat.le_of_lt_succ s.szx.isLt) 4
  rw [bytes, Nat.one_shiftLeft]
  exact Nat.pow_le_pow_right (n := 2) (by decide) h

/-- A size is known by its number of octets. -/
theorem bytes_inj {s t : Size} : s.bytes = t.bytes ↔ s = t := by
  constructor
  · intro h
    rw [bytes, bytes, Nat.one_shiftLeft, Nat.one_shiftLeft] at h
    have h' := (Nat.pow_right_inj (by decide)).1 h
    cases s; cases t
    simp only [Size.mk.injEq, Fin.ext_iff]
    exact Nat.add_right_cancel h'
  · rintro rfl; rfl

/-- `ofBytes?` accepts a number exactly when it is the octet count of a size. -/
theorem ofBytes?_eq_some_iff {n : Nat} {s : Size} : ofBytes? n = some s ↔ s.bytes = n := by
  constructor
  · intro h
    simpa using List.find?_some h
  · rintro rfl
    cases h : ofBytes? s.bytes with
    | none =>
      have := List.find?_eq_none.1 h s (mem_all s)
      simp at this
    | some t =>
      have : t.bytes = s.bytes := by simpa using List.find?_some h
      exact congrArg some (bytes_inj.1 this)

/-- Between two permitted sizes there is none. -/
example : ofBytes? 48 = none ∧ ofBytes? 64 = some ⟨2⟩ := by decide

end Size

end Blockwise
