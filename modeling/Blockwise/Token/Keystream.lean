/-!
# The keystream behind the tokens

Tokens are taken from a stream of 32-bit words that a 64-bit seed determines.
The words are the keystream of the ChaCha cipher with eight rounds, under a key
spread from the seed, with a zero stream identifier and a 64-bit block counter
that starts at 0.

* `Keystream.key` — the eight key words of a seed, by a permuted congruential
  generator
* `Keystream.block` — the sixteen words of one block
* `Keystream.word` — the word at a position of the stream
-/

namespace Blockwise.Keystream

/-- Rotates the bits of `x` to the left by `k` places, for `k` below 32. -/
def rotateLeft (x k : UInt32) : UInt32 := (x <<< k) ||| (x >>> (32 - k))

/-- Rotates the bits of `x` to the right by `k` places, for `k` below 32. -/
def rotateRight (x k : UInt32) : UInt32 := (x >>> k) ||| (x <<< (32 - k))

/-! ## Spreading the seed -/

/-- One step of a linear congruential generator on 64 bits. -/
def advance (s : UInt64) : UInt64 := s * 6364136223846793005 + 11634580027462260723

/-- The word that a generator state gives out: its high bits folded onto each
other, then rotated by the topmost five. -/
def extract (s : UInt64) : UInt32 :=
  rotateRight (((s >>> 18) ^^^ s) >>> 27).toUInt32 (s >>> 59).toUInt32

/-- The key of a seed: the words of the eight generator states after it. -/
def key (seed : UInt64) : Vector UInt32 8 :=
  Vector.ofFn fun i => extract (Nat.repeat advance (i.val + 1) seed)

/-! ## Blocks -/

/-- The sixteen words that a block is computed from and made of. -/
abbrev State := Vector UInt32 16

/-- Mixes the words at four positions. -/
def quarterRound (a b c d : Fin 16) (s : State) : State :=
  let wa := s[a] + s[b]
  let wd := rotateLeft (s[d] ^^^ wa) 16
  let wc := s[c] + wd
  let wb := rotateLeft (s[b] ^^^ wc) 12
  let wa := wa + wb
  let wd := rotateLeft (wd ^^^ wa) 8
  let wc := wc + wd
  let wb := rotateLeft (wb ^^^ wc) 7
  (((s.set a wa).set b wb).set c wc).set d wd

/-- Two rounds: the four columns of the state, then its four diagonals. -/
def doubleRound (s : State) : State :=
  let s := quarterRound 0 4 8 12 s
  let s := quarterRound 1 5 9 13 s
  let s := quarterRound 2 6 10 14 s
  let s := quarterRound 3 7 11 15 s
  let s := quarterRound 0 5 10 15 s
  let s := quarterRound 1 6 11 12 s
  let s := quarterRound 2 7 8 13 s
  quarterRound 3 4 9 14 s

/-- The state that block `counter` starts from: four constants, the key, the
counter with its low word first, and the stream identifier. -/
def start (key : Vector UInt32 8) (counter : UInt64) : State :=
  #v[0x61707865, 0x3320646e, 0x79622d32, 0x6b206574,
    key[0], key[1], key[2], key[3], key[4], key[5], key[6], key[7],
    counter.toUInt32, (counter >>> 32).toUInt32, 0, 0]

/-- The words of block `counter`: eight rounds, added to what they started
from. -/
def block (key : Vector UInt32 8) (counter : UInt64) : State :=
  let s := start key counter
  (Nat.repeat doubleRound 4 s).zipWith (· + ·) s

/-- The word at `position` of the stream; the block counter wraps after 64
bits. -/
def word (key : Vector UInt32 8) (position : Nat) : UInt32 :=
  (block key (UInt64.ofNat (position / 16)))[position % 16]

/-- The number of words after which the block counter returns to 0. -/
def period : Nat := 1 <<< 68

end Blockwise.Keystream
