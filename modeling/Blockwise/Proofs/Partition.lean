import Mathlib.Order.Bounds.Basic
import Blockwise.Proofs.Progress
/-!
# The blocks are the only division of a body

To divide a body into blocks of one size is to write it as consecutive pieces, none of
them empty, of which all but the last are full and the last is at most that.  `Division`
says so of any list of pieces, however they were made.

**There is one division, and the blocks are it** (`exact_partition`).  Two divisions of a
body begin with the same piece, as its length follows from the length of the body, and
what comes after are two divisions of the rest (`Division.unique`).  That the payloads of
the blocks are a division is a matter of their lengths (`Division.payloads`).
-/

namespace Blockwise

/-! ## Divisions -/

/-- The pieces, one after the other, are the body; none is empty, none is larger than a
full block, and all but the last are full blocks. -/
structure Division (body : ByteArray) (size : Size) (pieces : List ByteArray) : Prop where
  assemble_eq : assemble pieces = body
  pos : ∀ p ∈ pieces, 0 < p.size
  le : ∀ p ∈ pieces, p.size ≤ size.bytes
  full : ∀ p ∈ pieces.dropLast, p.size = size.bytes

theorem assemble_cons (piece : ByteArray) (pieces : List ByteArray) :
    assemble (piece :: pieces) = piece ++ assemble pieces := by
  induction pieces using List.reverseRecOn with
  | nil => simp [assemble]
  | append_singleton pieces last ih =>
    rw [← List.cons_append, assemble_concat, ih, assemble_concat, ByteArray.append_assoc]

theorem assemble_eq_empty_iff {pieces : List ByteArray} :
    assemble pieces = ByteArray.empty ↔ ∀ p ∈ pieces, p = ByteArray.empty := by
  induction pieces with
  | nil => simp [assemble]
  | cons p pieces ih => rw [assemble_cons, ByteArray.append_eq_empty_iff, ih, List.forall_mem_cons]

namespace Division

variable {body : ByteArray} {size : Size} {piece : ByteArray} {pieces pieces' : List ByteArray}

/-- An empty body has no pieces. -/
theorem nil_iff (h : Division body size pieces) : pieces = [] ↔ body = ByteArray.empty := by
  constructor
  · rintro rfl
    exact h.assemble_eq.symm
  · rintro rfl
    refine List.eq_nil_iff_forall_not_mem.2 fun p hp => ?_
    have hpos := h.pos p hp
    rw [assemble_eq_empty_iff.1 h.assemble_eq p hp] at hpos
    exact Nat.lt_irrefl _ hpos

/-- After its first piece, a division divides the rest of the body. -/
theorem tail (h : Division body size (piece :: pieces)) :
    Division (assemble pieces) size pieces where
  assemble_eq := rfl
  pos p hp := h.pos p (List.mem_cons_of_mem _ hp)
  le p hp := h.le p (List.mem_cons_of_mem _ hp)
  full := by
    cases pieces with
    | nil =>
      rintro p ⟨⟩
    | cons q pieces => exact fun p hp => h.full p (List.mem_cons_of_mem _ hp)

/-- The length of the first piece follows from the length of the body. -/
theorem size_head (h : Division body size (piece :: pieces)) :
    piece.size = min size.bytes body.size := by
  have hbody : body.size = piece.size + (assemble pieces).size := by
    rw [← h.assemble_eq, assemble_cons, ByteArray.size_append]
  have hle := h.le piece List.mem_cons_self
  cases pieces with
  | nil =>
    have hempty : (assemble []).size = 0 := rfl
    omega
  | cons q pieces =>
    have hfull : piece.size = size.bytes := h.full piece List.mem_cons_self
    omega

/-- A body has one division. -/
theorem unique (h : Division body size pieces) (h' : Division body size pieces') :
    pieces = pieces' := by
  induction pieces generalizing body pieces' with
  | nil => exact (h'.nil_iff.2 (h.nil_iff.1 rfl)).symm
  | cons piece pieces ih =>
    cases pieces' with
    | nil => exact h.nil_iff.2 (h'.nil_iff.1 rfl)
    | cons piece' pieces' =>
      have hjoin : piece ++ assemble pieces = piece' ++ assemble pieces' := by
        rw [← assemble_cons, ← assemble_cons, h.assemble_eq, h'.assemble_eq]
      have hsize : piece.size = piece'.size := h.size_head.trans h'.size_head.symm
      obtain ⟨rfl, hrest⟩ := (ByteArray.append_eq_append_iff_of_size_eq_left hsize).1 hjoin
      rw [ih h.tail (hrest ▸ h'.tail)]

end Division

/-! ## The blocks of a body -/

namespace Size

variable {s : Size} {len i : ℕ}

/-- The number of blocks is the least that carries the body. -/
theorem isLeast_blocksFor : IsLeast {m | len ≤ m * s.bytes} (s.blocksFor len) := by
  refine ⟨le_blocksFor_mul, fun m hm => Nat.le_of_not_lt fun hlt => ?_⟩
  exact absurd (lt_blocksFor_iff.1 hlt) (Nat.not_lt.2 hm)

/-- A block before the last is full. -/
theorem bytes_le_of_succ_lt (h : i + 1 < s.blocksFor len) : s.bytes ≤ len - i * s.bytes := by
  have hnext := lt_blocksFor_iff.1 h
  rw [Nat.succ_mul] at hnext
  omega

end Size

section

variable {body : ByteArray} {size : Size}

/-- The payloads of all blocks are a division. -/
theorem Division.payloads (body : ByteArray) (size : Size) :
    Division body size
      ((List.range (size.blocksFor body.size)).map (Block.payloadAt body size)) where
  assemble_eq := assemble_all_payloads
  pos := by
    intro p hp
    obtain ⟨i, hi, rfl⟩ := List.mem_map.1 hp
    have hinside := Size.lt_blocksFor_iff.1 (List.mem_range.1 hi)
    have hpos := size.bytes_pos
    rw [Block.size_payloadAt]
    omega
  le := by
    intro p hp
    obtain ⟨i, -, rfl⟩ := List.mem_map.1 hp
    rw [Block.size_payloadAt]
    exact min_le_left _ _
  full := by
    intro p hp
    rw [← List.map_dropLast, List.dropLast_eq_take, List.take_range, List.length_range] at hp
    obtain ⟨i, hi, rfl⟩ := List.mem_map.1 hp
    rw [List.mem_range] at hi
    rw [Block.size_payloadAt, min_eq_left (Size.bytes_le_of_succ_lt (by omega))]

/-- The block `b` is number `num` of the body: where it lies, how much it carries, what its
option says, and what its record says. -/
structure Block.Slices (b : Block) (body : ByteArray) (size : Size) (num : UInt32) : Prop where
  offset_eq : b.offset = num.toNat * size.bytes
  stop_le : b.offset + b.payload.size ≤ body.size
  payload_eq : b.payload = body.extract b.offset (b.offset + b.payload.size)
  /-- A block before the last is full. -/
  size_of_lt : num.toNat + 1 < size.blocksFor body.size → b.payload.size = size.bytes
  /-- The last block carries something. -/
  size_of_last : num.toNat + 1 = size.blocksFor body.size →
    1 ≤ b.payload.size ∧ b.payload.size ≤ size.bytes
  /-- More blocks follow exactly where this is not the last. -/
  header_eq : b.header = { num, more := decide (num.toNat + 1 < size.blocksFor body.size), size }
  /-- The record has the checksum of these octets of the body, and of no others. -/
  digest_eq : b.digest =
    { num
      offset := num.toNat * size.bytes
      len := b.payload.size
      more := decide (num.toNat + 1 < size.blocksFor body.size)
      crc := Checksum.crc32 (body.extract b.offset (b.offset + b.payload.size)) }

/-- What is cut as a block is that block. -/
theorem Block.slices_of_cut? {num : UInt32} {b : Block} (h : Block.cut? body size num = some b) :
    b.Slices body size num := by
  have hlt : num.toNat < size.blocksFor body.size := by
    refine Nat.not_le.1 fun hle => ?_
    rw [Block.cut?_eq_none_of_le hle] at h
    cases h
  have hinside := Size.lt_blocksFor_iff.1 hlt
  have hpos := size.bytes_pos
  have hmore : decide (num.toNat + 1 ≠ size.blocksFor body.size) =
      decide (num.toNat + 1 < size.blocksFor body.size) := decide_eq_decide.2 (by omega)
  have hsize : (payloadAt body size num.toNat).size =
      min size.bytes (body.size - num.toNat * size.bytes) := Block.size_payloadAt _
  have hpayload : payloadAt body size num.toNat = body.extract (num.toNat * size.bytes)
      (num.toNat * size.bytes + (payloadAt body size num.toNat).size) := by
    rw [hsize, payloadAt, Nat.succ_mul]
    congr 1
    omega
  rw [Block.cut?_of_lt hlt, Option.some.injEq, hmore] at h
  subst h
  refine ⟨rfl, ?_, hpayload, fun hnext => ?_, fun _ => ?_, rfl, ?_⟩
  · show num.toNat * size.bytes + (payloadAt body size num.toNat).size ≤ _
    omega
  · have hfull := Size.bytes_le_of_succ_lt hnext
    show (payloadAt body size num.toNat).size = _
    omega
  · show 1 ≤ (payloadAt body size num.toNat).size ∧ (payloadAt body size num.toNat).size ≤ _
    omega
  · show Digest.mk _ _ _ _ (Checksum.crc32 (payloadAt body size num.toNat)) = Digest.mk ..
    rw [← hpayload]

/-- As long as their numbers fit into words, all blocks can be cut. -/
theorem Block.exists_cut?_all (h : size.blocksFor body.size ≤ 2 ^ 32) :
    ∃ blocks : List Block,
      (List.range (size.blocksFor body.size)).map (fun i => cut? body size (UInt32.ofNat i)) =
        blocks.map some ∧
      blocks.map Block.payload =
        (List.range (size.blocksFor body.size)).map (payloadAt body size) := by
  let block : ℕ → Block := fun i =>
    { header := ⟨UInt32.ofNat i, decide (i + 1 ≠ size.blocksFor body.size), size⟩
      offset := i * size.bytes
      payload := payloadAt body size i }
  refine ⟨(List.range (size.blocksFor body.size)).map block, ?_, ?_⟩
  · rw [List.map_map]
    refine List.map_congr_left fun i hi => ?_
    rw [List.mem_range] at hi
    have hnum : (UInt32.ofNat i).toNat = i := UInt32.toNat_ofNat_of_lt' (hi.trans_le h)
    rw [cut?_of_lt (by rwa [hnum]), hnum]
    rfl
  · rw [List.map_map]
    rfl

/-- **Slicing is an exact partition.**  The number of blocks is the least that carries the
body.  A block exists exactly below that number, and is the slice of the body at its place,
full unless it is the last; its option, its record and its checksum say so.  Where block
numbers fit into words, the payloads of all blocks are a division of the body into blocks
of this size, and the only one. -/
theorem exact_partition (body : ByteArray) (size : Size) :
    let n := size.blocksFor body.size
    IsLeast {m | body.size ≤ m * size.bytes} n ∧
    (∀ num : UInt32, (Block.cut? body size num).isSome = true ↔ num.toNat < n) ∧
    (∀ (num : UInt32) (b : Block), Block.cut? body size num = some b → b.Slices body size num) ∧
    (n ≤ 2 ^ 32 → ∃ blocks : List Block,
      (List.range n).map (fun i => Block.cut? body size (UInt32.ofNat i)) = blocks.map some ∧
      assemble (blocks.map Block.payload) = body ∧
      ∀ pieces, Division body size pieces ↔ pieces = blocks.map Block.payload) := by
  intro n
  refine ⟨Size.isLeast_blocksFor, fun num => ?_, fun num b => Block.slices_of_cut?, fun hn => ?_⟩
  · rw [Size.lt_blocksFor_iff, ← Nat.not_le, ← Block.cut?_eq_none_iff, ← ne_eq,
      Option.ne_none_iff_isSome]
  · obtain ⟨blocks, hblocks, hpayloads⟩ := Block.exists_cut?_all hn
    have hdivision : Division body size (blocks.map Block.payload) := by
      rw [hpayloads]
      exact .payloads body size
    refine ⟨blocks, hblocks, hdivision.assemble_eq, fun pieces => ⟨fun h => h.unique hdivision, ?_⟩⟩
    rintro rfl
    exact hdivision

end

/-- A body of two and a half blocks has three, of which the last carries the half. -/
theorem exact_partition_sample :
    let body : ByteArray := ⟨Array.replicate 40 7⟩
    (∃ b, Block.cut? body ⟨0⟩ 2 = some b ∧ b.Slices body ⟨0⟩ 2 ∧
        b.digest = { num := 2, offset := 32, len := 8, more := false, crc := 0x4CD8290E }) ∧
      Block.cut? body ⟨0⟩ 3 = none ∧
      ∃ pieces, pieces.map ByteArray.size = [16, 16, 8] ∧
        ∀ pieces', Division body ⟨0⟩ pieces' ↔ pieces' = pieces := by
  intro body
  obtain ⟨-, hsome, hslices, hdivision⟩ := exact_partition body ⟨0⟩
  obtain ⟨b, hb⟩ := Option.isSome_iff_exists.1 ((hsome 2).2 (by decide))
  obtain ⟨blocks, -, -, hunique⟩ := hdivision (by decide)
  have hdigest : (Block.cut? body ⟨0⟩ 2).map Block.digest =
      some { num := 2, offset := 32, len := 8, more := false, crc := 0x4CD8290E } := by
    decide +kernel
  have hnone : ¬ (Block.cut? body ⟨0⟩ 3).isSome = true := fun h => absurd ((hsome 3).1 h) (by decide)
  rw [hb] at hdigest
  refine ⟨⟨b, hb, hslices 2 b hb, Option.some.inj hdigest⟩,
    Option.not_isSome_iff_eq_none.1 hnone, blocks.map Block.payload, ?_, hunique⟩
  rw [← (hunique _).1 (Division.payloads body ⟨0⟩)]
  decide +kernel

end Blockwise
