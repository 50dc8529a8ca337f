import Blockwise.Token.Basic
import Blockwise.Token.Stream
/-!
# The source of tokens

A fresh token is drawn for every upload.  The token is the next word of a
stream, except that a word which would repeat the token issued right before is
passed over: a late response to the session before cannot be taken for one to
the session now.

* `Source.next` — a fresh token, and the source after it
* `Source.last` — the token issued most recently
-/

namespace Blockwise

/-- Where the tokens of the sessions come from. -/
structure Source where
  /-- The words that tokens are made of. -/
  stream : WordStream
  /-- The position of the next unread word. -/
  position : Nat
  /-- The token issued most recently. -/
  last : Option Token

namespace Source

/-- A source that has issued nothing yet. -/
def ofStream (stream : WordStream) : Source where
  stream
  position := 0
  last := none

/-- The source that a seed determines. -/
def ofSeed (seed : UInt64) : Source := ofStream (.ofSeed seed)

/-- The first position from `i` on, at most `ahead` further, whose word does not
make the token `last`; or the position `ahead` further if there is none. -/
def seek (word : Nat → UInt32) (last : Option Token) : (ahead i : Nat) → Nat
  | 0, i => i
  | ahead + 1, i => if some (Token.ofWord (word i)) ≠ last then i else seek word last ahead (i + 1)

/-- The position of the word that the next token is made of. -/
def nextPosition (s : Source) : Nat :=
  seek s.stream.word s.last (s.stream.reach s.position) s.position

/-- A fresh token, and the source after it. -/
def next (s : Source) : Token × Source :=
  let i := s.nextPosition
  let token := Token.ofWord (s.stream.word i)
  (token, { s with position := i + 1, last := some token })

/-- The source after `n` tokens. -/
def drop : Nat → Source → Source
  | 0, s => s
  | n + 1, s => drop n s.next.2

/-- The next `n` tokens in order, and the source after them. -/
def take (s : Source) (n : Nat) : List Token × Source :=
  go n s []
where
  /-- Draws `n` more tokens onto those drawn, the latest first. -/
  go : Nat → Source → List Token → List Token × Source
    | 0, s, drawn => (drawn.reverse, s)
    | n + 1, s, drawn =>
      let (token, s) := s.next
      go n s (token :: drawn)

/-! ## What a search finds -/

variable {word : Nat → UInt32} {last : Option Token}

theorem le_seek (ahead i : Nat) : i ≤ seek word last ahead i := by
  induction ahead generalizing i with
  | zero => exact Nat.le_refl i
  | succ ahead ih =>
    rw [seek]
    split
    · exact Nat.le_refl i
    · exact Nat.le_of_succ_le (ih (i + 1))

/-- Every word that the search passes over would have repeated the token. -/
theorem eq_last_of_lt_seek {ahead i j : Nat} (hij : i ≤ j) (hj : j < seek word last ahead i) :
    some (Token.ofWord (word j)) = last := by
  induction ahead generalizing i with
  | zero => exact absurd hj (by rw [seek]; omega)
  | succ ahead ih =>
    rw [seek] at hj
    split at hj
    · omega
    · rename_i h
      rcases Nat.eq_or_lt_of_le hij with rfl | h'
      · simpa using h
      · exact ih h' hj

/-- The search finds a word that makes another token, if there is one within
its reach. -/
theorem ne_last_of_exists {ahead i : Nat}
    (h : ∃ j, j ≤ ahead ∧ some (Token.ofWord (word (i + j))) ≠ last) :
    some (Token.ofWord (word (seek word last ahead i))) ≠ last := by
  induction ahead generalizing i with
  | zero =>
    obtain ⟨j, hj, h⟩ := h
    obtain rfl := Nat.le_zero.1 hj
    exact h
  | succ ahead ih =>
    rw [seek]
    split
    · assumption
    · rename_i hi
      obtain ⟨j, hj, h⟩ := h
      cases j with
      | zero => exact absurd h hi
      | succ j =>
        refine ih ⟨j, Nat.le_of_succ_le_succ hj, ?_⟩
        rwa [Nat.add_assoc, Nat.add_comm 1 j]

/-- A token differs from the one issued right before it. -/
theorem next_ne_last (s : Source) : some s.next.1 ≠ s.last := by
  refine ne_last_of_exists ?_
  by_cases h : some (Token.ofWord (s.stream.word s.position)) = s.last
  · obtain ⟨j, hj, hne⟩ := s.stream.changes s.position
    refine ⟨j, hj, ?_⟩
    rw [← h, ne_eq, Option.some.injEq, Token.ofWord_inj]
    exact hne
  · exact ⟨0, Nat.zero_le _, h⟩

theorem last_next (s : Source) : s.next.2.last = some s.next.1 := rfl

end Source

end Blockwise
