import Mathlib.Data.Finset.Card
import Mathlib.Data.Finset.Lattice.Fold
import Mathlib.Data.Finset.Range
import Mathlib.Order.Lattice.Nat
import Blockwise.Window
/-!
# What the counters of a window mean

A window keeps two counters and the set of blocks that are out.  Since
acknowledgements come in any order, `highest` is a maximum and not the length of
a prefix, and the inequalities between the counters say too little to survive a
step.  What does survive is the relation of the whole window to the set of
blocks that were acknowledged.

**`Window.Tracks`.**  A window tracks a set of block numbers when what is out is
exactly what was sent and is not in the set, and `highest` is one past the
greatest member.  Sending and acknowledging keep the relation
(`Tracks.dispatch`, `Tracks.acknowledge`), and every bound on the counters
follows from it.

**One bound is enough.**  Whatever lies between `highest` and `next` is out, so
the stretch between the counters never exceeds the number of blocks that are out
(`Tracks.outstanding_le_size`).  Of the two bounds that hold a block back, only
the one on that number ever bites (`Tracks.canSend_iff`).
-/

namespace Blockwise.Window

variable {w : Window} {num : UInt32}

/-! ## Words as numbers -/

theorem toNat_max (a b : UInt32) : (max a b).toNat = max a.toNat b.toNat := by
  show (if a ≤ b then b else a).toNat = max a.toNat b.toNat
  by_cases h : a ≤ b
  · rw [if_pos h, max_eq_right (UInt32.le_iff_toNat_le.1 h)]
  · rw [if_neg h, max_eq_left (Nat.le_of_not_le fun h' => h (UInt32.le_iff_toNat_le.2 h'))]

theorem toNat_add_one_of_lt (h : num.toNat < w.total.toNat) :
    (num + 1).toNat = num.toNat + 1 := by
  have := w.total.toNat_lt
  rw [UInt32.toNat_add]
  exact Nat.mod_eq_of_lt (by simp; omega)

theorem isLast_iff (h : num.toNat < w.total.toNat) :
    w.IsLast num ↔ num.toNat + 1 = w.total.toNat := by
  rw [IsLast, ← UInt32.toNat_inj, toNat_add_one_of_lt h]

theorem canSend_iff_toNat (h : w.highest.toNat ≤ w.next.toNat) :
    w.CanSend ↔ w.next.toNat < w.total.toNat ∧
      w.next.toNat - w.highest.toNat < w.limit.toNat ∧ w.inFlight.size < w.limit.toNat := by
  rw [CanSend, UInt32.lt_iff_toNat_lt, UInt32.lt_iff_toNat_lt,
    UInt32.toNat_sub_of_le _ _ (UInt32.le_iff_toNat_le.2 h)]

/-! ## Tracking the acknowledged blocks -/

/-- How the window `w` stands after the blocks in `acked`, and no others, were
acknowledged. -/
structure Tracks (w : Window) (acked : Finset ℕ) : Prop where
  /-- No more blocks were sent than there are. -/
  next_le : w.next.toNat ≤ w.total.toNat
  /-- Only what was sent is acknowledged. -/
  lt_next : ∀ k ∈ acked, k < w.next.toNat
  /-- The last block is never acknowledged in favour of a further one. -/
  not_last : ∀ k ∈ acked, k + 1 < w.total.toNat
  /-- What is out was sent and not acknowledged, and conversely. -/
  mem_inFlight_iff : ∀ {num : UInt32},
    num ∈ w.inFlight ↔ num.toNat < w.next.toNat ∧ num.toNat ∉ acked
  /-- `highest` is one past the greatest acknowledged block. -/
  highest_eq : w.highest.toNat = acked.sup (· + 1)
  /-- Every block that was sent is out or acknowledged. -/
  size_add_card : w.inFlight.size + acked.card = w.next.toNat
  /-- The window holds. -/
  size_le : w.inFlight.size ≤ w.limit.toNat

namespace Tracks

variable {acked : Finset ℕ}

theorem fresh (total limit : UInt32) : Tracks { total, limit } ∅ where
  next_le := by simp
  lt_next := by simp
  not_last := by simp
  mem_inFlight_iff := by simp
  highest_eq := by simp
  size_add_card := by simp
  size_le := by simp

theorem highest_le_next (h : w.Tracks acked) : w.highest.toNat ≤ w.next.toNat := by
  rw [h.highest_eq]
  exact Finset.sup_le fun k hk => h.lt_next k hk

/-- `highest` stays below the number of blocks, as the last block is never
acknowledged in favour of a further one. -/
theorem highest_lt_total (h : w.Tracks acked) (hpos : 0 < w.total.toNat) :
    w.highest.toNat < w.total.toNat := by
  rw [h.highest_eq, Finset.sup_lt_iff hpos]
  exact fun k hk => h.not_last k hk

theorem card_le_highest (h : w.Tracks acked) : acked.card ≤ w.highest.toNat := by
  have hsub : acked ⊆ Finset.range w.highest.toNat := by
    intro k hk
    rw [Finset.mem_range, h.highest_eq]
    exact Finset.le_sup (f := (· + 1)) hk
  simpa using Finset.card_le_card hsub

/-- The stretch between the two counters never exceeds what is out. -/
theorem outstanding_le_size (h : w.Tracks acked) :
    w.next.toNat - w.highest.toNat ≤ w.inFlight.size := by
  have hcard := h.card_le_highest
  have hsize := h.size_add_card
  omega

theorem mem_inFlight_of_highest_le (h : w.Tracks acked) (hle : w.highest.toNat ≤ num.toNat)
    (hlt : num.toNat < w.next.toNat) : num ∈ w.inFlight := by
  refine h.mem_inFlight_iff.2 ⟨hlt, fun hmem => ?_⟩
  have hsup : num.toNat + 1 ≤ acked.sup (· + 1) := Finset.le_sup (f := (· + 1)) hmem
  rw [← h.highest_eq] at hsup
  omega

/-- Of the two bounds on sending, the one on the number of blocks that are out
decides. -/
theorem canSend_iff (h : w.Tracks acked) :
    w.CanSend ↔ w.next.toNat < w.total.toNat ∧ w.inFlight.size < w.limit.toNat := by
  rw [canSend_iff_toNat h.highest_le_next]
  have hout := h.outstanding_le_size
  constructor
  · rintro ⟨hnext, -, hsize⟩
    exact ⟨hnext, hsize⟩
  · rintro ⟨hnext, hsize⟩
    exact ⟨hnext, lt_of_le_of_lt hout hsize, hsize⟩

/-- Where no block may go out, the body is used up or the window is full. -/
theorem next_eq_of_not_canSend (h : w.Tracks acked) (hrest : ¬ w.CanSend) :
    w.next.toNat = min w.total.toNat (w.limit.toNat + acked.card) := by
  rw [h.canSend_iff] at hrest
  have hnext := h.next_le
  have hsize := h.size_le
  have hcard := h.size_add_card
  omega

/-! ## Steps -/

theorem next_not_mem_inFlight (h : w.Tracks acked) : w.next ∉ w.inFlight := by
  intro hmem
  exact lt_irrefl _ (h.mem_inFlight_iff.1 hmem).1

/-- Sending a block leaves the acknowledged ones as they are. -/
theorem dispatch (h : w.Tracks acked) (hsend : w.CanSend) : w.dispatch.Tracks acked := by
  have hnext : w.dispatch.next.toNat = w.next.toNat + 1 := toNat_next_add_one hsend
  obtain ⟨hlt, hroom⟩ := h.canSend_iff.1 hsend
  have hsize := size_inFlight_dispatch h.next_not_mem_inFlight
  refine ⟨?_, ?_, h.not_last, ?_, h.highest_eq, ?_, ?_⟩
  · rw [hnext]
    exact hlt
  · intro k hk
    rw [hnext]
    exact Nat.lt_succ_of_lt (h.lt_next k hk)
  · intro num
    rw [mem_inFlight_dispatch, h.mem_inFlight_iff, hnext, Nat.lt_succ_iff_lt_or_eq]
    constructor
    · rintro (rfl | ⟨hnum, hack⟩)
      · exact ⟨.inr rfl, fun hmem => lt_irrefl _ (h.lt_next _ hmem)⟩
      · exact ⟨.inl hnum, hack⟩
    · rintro ⟨hnum | hnum, hack⟩
      · exact .inr ⟨hnum, hack⟩
      · exact .inl (UInt32.toNat_inj.1 hnum)
  · rw [hsize, hnext, ← h.size_add_card]
    omega
  · rw [hsize]
    exact hroom

/-- Acknowledging a block that is out, and is not the last, adds it to the
acknowledged ones. -/
theorem acknowledge (h : w.Tracks acked) (hmem : num ∈ w.inFlight) (hlast : ¬ w.IsLast num) :
    (w.acknowledge num).Tracks (insert num.toNat acked) := by
  obtain ⟨hnum, hack⟩ := h.mem_inFlight_iff.1 hmem
  have hlt : num.toNat < w.total.toNat := lt_of_lt_of_le hnum h.next_le
  have hsize : (w.acknowledge num).inFlight.size + 1 = w.inFlight.size := size_inFlight_settle hmem
  rw [isLast_iff hlt] at hlast
  refine ⟨h.next_le, ?_, ?_, ?_, ?_, ?_, ?_⟩
  · intro k hk
    rcases Finset.mem_insert.1 hk with rfl | hk
    · exact hnum
    · exact h.lt_next k hk
  · intro k hk
    rcases Finset.mem_insert.1 hk with rfl | hk
    · show num.toNat + 1 < w.total.toNat
      omega
    · exact h.not_last k hk
  · intro k
    rw [mem_inFlight_acknowledge, h.mem_inFlight_iff, Finset.mem_insert, not_or, ne_eq,
      ← UInt32.toNat_inj]
    show _ ↔ k.toNat < w.next.toNat ∧ _
    tauto
  · show (max w.highest (num + 1)).toNat = _
    rw [toNat_max, toNat_add_one_of_lt hlt, h.highest_eq, Finset.sup_insert, max_comm]
  · show _ = w.next.toNat
    rw [Finset.card_insert_of_notMem hack, ← h.size_add_card]
    omega
  · have hle : w.inFlight.size ≤ w.limit.toNat := h.size_le
    show _ ≤ w.limit.toNat
    omega

end Tracks

end Blockwise.Window
