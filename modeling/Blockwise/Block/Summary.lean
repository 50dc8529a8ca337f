import Blockwise.Block.Basic
/-!
# Summaries in a buffer

The summary of a block is written into a buffer with room for 96 octets, piece by piece: the
words of the text, and the numbers and the flag between them.  A piece that does not go in
ends the writing, and nobody is told.

Buffers are not made here.  A `TextBuffer` is what the writing needs of one, and
`TextBuffer.Holds` what it may rely on; how a buffer is left by a piece that it has no room for
is its own affair.

* `Digest.pieces` — the summary in pieces
* `Digest.write` — the summary as far as it went into a buffer
-/

namespace Blockwise

variable {β : Type}

/-- What the writing of text needs of buffers `β`. -/
structure TextBuffer (β : Type) where
  /-- A buffer to begin with. -/
  empty : β
  /-- What is in the buffer. -/
  text : β → String
  /-- Puts a piece behind what is in the buffer, or fails. -/
  write : String → EStateM Unit β Unit

/-- The buffers begin empty, and take a piece as a whole wherever `capacity` octets are room
enough. -/
structure TextBuffer.Holds (b : TextBuffer β) (capacity : Nat) : Prop where
  text_empty : b.text b.empty = ""
  write_ok : ∀ {piece : String} {x : β},
    (b.text x).utf8ByteSize + piece.utf8ByteSize ≤ capacity →
      ∃ x', b.write piece x = .ok () x' ∧ b.text x' = b.text x ++ piece

namespace Digest

/-- The number of octets that the buffer of a summary has room for. -/
def summaryCapacity : Nat := 96

/-- The pieces of the summary, as they are written one after the other. -/
def pieces (d : Digest) (total : UInt32) : List String :=
  ["block ", toString (d.num + 1), "/", toString total, " (offset=", toString d.offset, ", len=",
    toString d.len, ", more=", toString d.more, ")"]

/-- The buffer after the summary was written into it, up to the first piece that failed. -/
def write (b : TextBuffer β) (d : Digest) (total : UInt32) : β :=
  match forM (d.pieces total) b.write b.empty with
  | .ok _ x | .error _ x => x

/-- All pieces together are the summary. -/
theorem join_pieces (d : Digest) (total : UInt32) :
    String.join (d.pieces total) = d.summary total := by
  simp only [String.join, pieces, List.foldl_cons, List.foldl_nil, String.empty_append]
  rfl

end Digest

end Blockwise
