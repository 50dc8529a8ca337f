import Blockwise.Token.Keystream
/-!
# Streams that never settle

A source of tokens passes over words that would repeat the token before, so it
answers only if the stream behind it changes again and again.  `WordStream`
holds a stream of words together with how far ahead a change is to be found;
a search for the next different word is then a recursion on that distance.

`WordStream.ofSeed` is the keystream of a seed.  A keystream is periodic, and
nothing rules out, by a short proof, a seed whose period is one word over and
over.  So the positions after the first period, which no run reaches, are
numbered through instead, and the stream provably goes on changing.
-/

namespace Blockwise

/-- An infinite stream of words that is never constant from some position on. -/
structure WordStream where
  /-- The word at a position. -/
  word : Nat → UInt32
  /-- How far after a position a different word is sure to be met. -/
  reach : Nat → Nat
  /-- A different word is met within reach. -/
  changes : ∀ i, ∃ j, j ≤ reach i ∧ word (i + j) ≠ word i

namespace WordStream

/-- The words `f 0, f 1, …, f (bound - 1)`, and from there on the positions
themselves, counted in 32 bits. -/
def numberedFrom (bound : Nat) (f : Nat → UInt32) : WordStream where
  word i := if i < bound then f i else UInt32.ofNat i
  reach i := (bound - i) + 1
  changes i := by
    have step : ∀ n, UInt32.ofNat (n + 1) ≠ UInt32.ofNat n := by
      intro n h
      have := congrArg UInt32.toNat h
      simp only [UInt32.toNat_ofNat'] at this
      omega
    -- The two words at the bound differ, so one of them differs from word `i`.
    by_cases hi : i < bound
    · by_cases h : (if i < bound then f i else UInt32.ofNat i) = UInt32.ofNat bound
      · refine ⟨bound + 1 - i, by omega, ?_⟩
        rw [show i + (bound + 1 - i) = bound + 1 by omega, if_neg (by omega), h]
        exact step bound
      · refine ⟨bound - i, by omega, ?_⟩
        rw [show i + (bound - i) = bound by omega, if_neg (Nat.lt_irrefl bound)]
        exact fun h' => h h'.symm
    · refine ⟨1, by omega, ?_⟩
      rw [if_neg (by omega), if_neg hi]
      exact step i

/-- The stream of a seed: one period of its keystream. -/
def ofSeed (seed : UInt64) : WordStream :=
  let key := Keystream.key seed
  numberedFrom Keystream.period (Keystream.word key)

/-- Within its period, the stream of a seed is the keystream. -/
theorem word_ofSeed {seed : UInt64} {i : Nat} (h : i < Keystream.period) :
    (ofSeed seed).word i = Keystream.word (Keystream.key seed) i :=
  if_pos h

end WordStream

end Blockwise
