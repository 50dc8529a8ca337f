import Std.Data.ExtTreeMap
/-!
# The sliding window

Which blocks of a body have been sent and which of those have been answered.
Blocks are sent in the order of their numbers; acknowledgements may come back
in any order.

**Two bounds at once.**  A further block may go out while both the stretch from
the highest acknowledged block to the next one, and the number of blocks that
still wait for an answer, leave room.  An early acknowledgement for a late block
does not free the places of the blocks before it.

The waiting blocks are an extensional map: two windows that hold the same blocks
*are* the same window, whatever the order in which the blocks came and went.

* `Window.CanSend` — whether another block may go out
* `Window.dispatch` — the next block has gone out
* `Window.settle` — the exchange of a block is over
* `Window.acknowledge` — a block was stored by the server
-/

namespace Blockwise

/-- How often a block was sent.  Blocks are never sent again, but each keeps its
count, so that they could be. -/
structure Attempts where
  count : UInt16 := 0
deriving DecidableEq, Ord, Repr, Inhabited

/-- The first time that a block is sent. -/
def Attempts.first : Attempts := ⟨1⟩

/-- The blocks of one body that are out, by number. -/
abbrev InFlight := Std.ExtTreeMap UInt32 Attempts

/-- How far the sending of a body has come. -/
structure Window where
  /-- The number of blocks in the body. -/
  total : UInt32
  /-- How many blocks may be sent and not yet acknowledged. -/
  limit : UInt32
  /-- The number of the next block to send. -/
  next : UInt32 := 0
  /-- One past the highest block that the server has acknowledged. -/
  highest : UInt32 := 0
  /-- The blocks that were sent and wait for an answer. -/
  inFlight : InFlight := ∅

namespace Window

/-- Another block may go out: one is left, and both bounds leave room. -/
def CanSend (w : Window) : Prop :=
  w.next < w.total ∧ w.next - w.highest < w.limit ∧ w.inFlight.size < w.limit.toNat

instance (w : Window) : Decidable w.CanSend := by
  unfold CanSend
  infer_instance

/-- All blocks have gone out. -/
def AllSent (w : Window) : Prop := w.next = w.total

instance (w : Window) : Decidable w.AllSent := by
  unfold AllSent
  infer_instance

/-- Block `num` is the last of the body. -/
def IsLast (w : Window) (num : UInt32) : Prop := num + 1 = w.total

instance (w : Window) (num : UInt32) : Decidable (w.IsLast num) := by
  unfold IsLast
  infer_instance

/-- The next block has gone out, for the first time. -/
def dispatch (w : Window) : Window :=
  { w with inFlight := w.inFlight.insert w.next .first, next := w.next + 1 }

/-- The exchange of block `num` is over. -/
def settle (w : Window) (num : UInt32) : Window :=
  { w with inFlight := w.inFlight.erase num }

/-- The server has stored block `num`.  Acknowledgements come in any order, and
the highest acknowledged block only ever moves forward. -/
def acknowledge (w : Window) (num : UInt32) : Window :=
  { w.settle num with highest := max w.highest (num + 1) }

/-- How many blocks have not gone out yet. -/
def unsent (w : Window) : Nat := w.total.toNat - w.next.toNat

/-! ## What is out

Each operation says which blocks are out after it, and how many. -/

variable {w : Window} {k num : UInt32}

/-- What is out after a block has gone out. -/
theorem mem_inFlight_dispatch : k ∈ w.dispatch.inFlight ↔ k = w.next ∨ k ∈ w.inFlight := by
  simp [dispatch, Std.ExtTreeMap.mem_insert, @eq_comm _ k]

/-- What is out after the exchange of a block is over. -/
theorem mem_inFlight_settle : k ∈ (w.settle num).inFlight ↔ k ≠ num ∧ k ∈ w.inFlight := by
  simp [settle, Std.ExtTreeMap.mem_erase, @eq_comm _ k]

theorem mem_inFlight_acknowledge :
    k ∈ (w.acknowledge num).inFlight ↔ k ≠ num ∧ k ∈ w.inFlight := mem_inFlight_settle

theorem size_inFlight_settle (h : num ∈ w.inFlight) :
    (w.settle num).inFlight.size + 1 = w.inFlight.size := by
  have hne : w.inFlight ≠ ∅ := fun h₀ => by simp [h₀] at h
  have hpos : w.inFlight.size ≠ 0 := fun h₀ => hne (Std.ExtTreeMap.eq_empty_iff_size_eq_zero.2 h₀)
  simp only [settle, Std.ExtTreeMap.size_erase, Std.ExtTreeMap.contains_iff_mem, if_pos h]
  omega

theorem size_inFlight_dispatch (h : w.next ∉ w.inFlight) :
    w.dispatch.inFlight.size = w.inFlight.size + 1 := by
  simp only [dispatch, Std.ExtTreeMap.size_insert, Std.ExtTreeMap.contains_iff_mem, if_neg h]

/-! ## The next block in natural numbers -/

/-- While a block is left to send, the number after it fits into a word. -/
theorem toNat_next_add_one (h : w.CanSend) : (w.next + 1).toNat = w.next.toNat + 1 := by
  have hlt : w.next.toNat < w.total.toNat := UInt32.lt_iff_toNat_lt.1 h.1
  have := w.total.toNat_lt
  rw [UInt32.toNat_add]
  exact Nat.mod_eq_of_lt (by simp; omega)

theorem unsent_dispatch (h : w.CanSend) : w.dispatch.unsent + 1 = w.unsent := by
  have hlt : w.next.toNat < w.total.toNat := UInt32.lt_iff_toNat_lt.1 h.1
  have := toNat_next_add_one h
  simp only [unsent, dispatch, this]
  omega

end Window

end Blockwise
