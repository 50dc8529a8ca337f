import Mathlib.Algebra.BigOperators.Intervals
import Blockwise.Proofs.Admission
/-!
# What the byte counts of a session mean

A session does not keep count of octets.  Its snapshot multiplies the number of blocks
that were sent by the block size, as far as the body goes, and takes off the lengths of
the blocks that are out.  Both are sums of payload lengths, over the blocks that were
sent (`Session.sentBytes`) and over those of them that were not acknowledged
(`Session.pendingBytes`).  The second sum is over part of the first, so it can be taken
off (`Admission.Runs.pendingBytes_add`), whatever gaps the acknowledgements left.
-/

namespace Blockwise

open Finset

/-! ## Lengths of payloads -/

namespace Block

variable {body : ByteArray} {size : Size}

theorem size_payloadAt (i : ℕ) :
    (payloadAt body size i).size = min size.bytes (body.size - i * size.bytes) := by
  rw [payloadAt, ByteArray.size_extract, Nat.succ_mul]
  omega

/-- The first `k` blocks carry `k` full blocks, as far as the body goes. -/
theorem sum_size_payloadAt (k : ℕ) :
    ∑ i ∈ range k, (payloadAt body size i).size = min (k * size.bytes) body.size := by
  induction k with
  | zero => simp
  | succ k ih =>
    rw [sum_range_succ, ih, size_payloadAt, Nat.succ_mul]
    omega

/-- The length that is foretold of a block is that of its payload. -/
theorem blockLength_eq (num : UInt32) :
    size.blockLength body.size num = (payloadAt body size num.toNat).size :=
  (size_payloadAt num.toNat).symm

end Block

/-! ## What is out -/

/-- A sum over what is out is one over the blocks that were sent and not acknowledged. -/
theorem Window.Tracks.sum_keys {w : Window} {acked : Finset ℕ} (h : w.Tracks acked) (f : ℕ → ℕ) :
    (w.inFlight.keys.map fun num => f num.toNat).sum =
      ∑ i ∈ range w.next.toNat \ acked, f i := by
  have hnodup : (w.inFlight.keys.map UInt32.toNat).Nodup :=
    Std.ExtTreeMap.nodup_keys.map fun _ _ => UInt32.toNat_inj.1
  have hkeys : (w.inFlight.keys.map UInt32.toNat).toFinset = range w.next.toNat \ acked := by
    ext i
    simp only [List.mem_toFinset, List.mem_map, Std.ExtTreeMap.mem_keys, h.mem_inFlight_iff,
      mem_sdiff, mem_range]
    constructor
    · rintro ⟨num, ⟨hlt, hack⟩, rfl⟩
      exact ⟨hlt, hack⟩
    · rintro ⟨hlt, hack⟩
      have hnum : (UInt32.ofNat i).toNat = i :=
        UInt32.toNat_ofNat_of_lt' (hlt.trans w.next.toNat_lt)
      exact ⟨UInt32.ofNat i, by rw [hnum]; exact ⟨hlt, hack⟩, hnum⟩
  rw [← hkeys, List.sum_toFinset _ hnodup, List.map_map]
  rfl

/-! ## The counts -/

/-- What was sent is the payloads of the blocks before the next one. -/
theorem Session.sentBytes_eq (s : Session) :
    s.sentBytes = ∑ i ∈ range s.window.next.toNat, (Block.payloadAt s.body s.size i).size :=
  (Block.sum_size_payloadAt _).symm

theorem Session.sentBytes_le (s : Session) : s.sentBytes ≤ s.body.size := min_le_right _ _

namespace Admission.Runs

variable {a : Admission} {acked : Finset ℕ} {s : Session}

/-- What is pending is the payloads of the blocks that wait for an answer. -/
theorem pendingBytes_eq (h : a.Runs acked s) :
    s.pendingBytes =
      ∑ i ∈ range s.window.next.toNat \ acked, (Block.payloadAt s.body s.size i).size := by
  rw [← h.tracks.sum_keys]
  simp only [← Block.blockLength_eq]
  rfl

/-- What was sent is pending or acknowledged. -/
theorem pendingBytes_add (h : a.Runs acked s) :
    s.pendingBytes + ∑ i ∈ acked, (Block.payloadAt s.body s.size i).size = s.sentBytes := by
  have hsub : acked ⊆ range s.window.next.toNat := by
    intro k hk
    exact mem_range.2 (h.tracks.lt_next k hk)
  rw [h.pendingBytes_eq, s.sentBytes_eq]
  exact sum_sdiff hsub

theorem pendingBytes_le (h : a.Runs acked s) : s.pendingBytes ≤ s.sentBytes :=
  Nat.le.intro h.pendingBytes_add

end Admission.Runs

end Blockwise
