import Blockwise.Proofs.Progress
/-!
# Arithmetic that notices faults

Block numbers are words of 32 bits, and octets are counted in words of 64.  Words wrap
without a sign.  So here is the arithmetic of blocks, windows and sessions once more, in
steps that stop at the first `Fault`: a sum or a product that does not fit, a difference
below zero, octets that are not there, a branch that is not meant to be reached.

Each function is followed by the lemma that, where its arguments are those of a session
under way, there is no fault, and the result is that of the function without checks.
Cutting a block asks nothing of the number of the block, and nothing is asked of a
completion before the session owns it.

* `Fault`, `Checked` — what can go wrong, and a result that may
* `Checked.cut?_eq`, `Checked.value_eq`, `Checked.summary_eq` — blocks
* `Checked.canSend_eq`, `Checked.dispatch_eq`, `Checked.acknowledge_eq` — windows
* `Checked.ofUpload_eq`, `Checked.progress_eq` — sessions
-/

namespace Blockwise

/-- What can go wrong with an operation on words. -/
inductive Fault where
  /-- The result has more bits than the word. -/
  | overflow
  /-- The result is below zero. -/
  | underflow
  /-- Not all of the octets exist. -/
  | bounds
  /-- A branch was taken that is not meant to be reached. -/
  | unreachable
deriving DecidableEq, Repr

/-- A result, or else the first fault on the way to it. -/
abbrev Checked (α : Type) := Except Fault α

/-- The largest body that there is room for: sizes in memory have a sign bit to spare. -/
def maxBody : ℕ := 2 ^ 63 - 1

namespace Checked

section Steps

variable {α β : Type}

theorem ok_bind (a : α) (f : α → Checked β) : Except.ok a >>= f = f a := rfl

/-- Two steps without a fault are one without a fault, and then another. -/
theorem exists_of_bind {x : Checked α} {f : α → Checked β} {b : β} (h : x >>= f = .ok b) :
    ∃ a, x = .ok a ∧ f a = .ok b := by
  cases x with
  | error fault => cases h
  | ok a => exact ⟨a, rfl, h⟩

end Steps

/-! ## Operations on words -/

/-- A number of octets, in 64 bits. -/
def count (n : ℕ) : Checked ℕ := if n < UInt64.size then .ok n else .error .overflow

def word (n : ℕ) : Checked UInt32 :=
  if n < UInt32.size then .ok (UInt32.ofNat n) else .error .overflow

def succ (a : UInt32) : Checked UInt32 := word (a.toNat + 1)

/-- The word moved to the high end, of which no bit may be lost. -/
def shiftLeft (a : UInt32) (k : ℕ) : Checked UInt32 := word (a.toNat <<< k)

def sub (a b : UInt32) : Checked UInt32 := if b ≤ a then .ok (a - b) else .error .underflow

def subCount (a b : ℕ) : Checked ℕ := if b ≤ a then .ok (a - b) else .error .underflow

/-- The octets from `start` on, up to `stop`. -/
def slice (body : ByteArray) (start stop : ℕ) : Checked ByteArray :=
  if start ≤ stop ∧ stop ≤ body.size then .ok (body.extract start stop) else .error .bounds

section Words

variable {n a b : ℕ} {x y : UInt32}

theorem count_eq (h : n < UInt64.size) : count n = .ok n := if_pos h

theorem word_eq (h : n < UInt32.size) : word n = .ok (UInt32.ofNat n) := if_pos h

/-- Below another word there is room for one more. -/
theorem succ_eq (h : x.toNat < y.toNat) : succ x = .ok (x + 1) := by
  have hlt : x.toNat + 1 < UInt32.size := (Nat.succ_le_of_lt h).trans_lt y.toNat_lt
  rw [succ, word_eq hlt, UInt32.ofNat_add, UInt32.ofNat_toNat]
  rfl

/-- A checked successor that is there is the successor. -/
theorem eq_of_succ (h : succ x = .ok y) : y = x + 1 := by
  unfold succ word at h
  split at h
  · rw [UInt32.ofNat_add, UInt32.ofNat_toNat] at h
    exact (Except.ok.inj h).symm
  · cases h

theorem shiftLeft_four_eq (h : x.toNat < 2 ^ 28) : shiftLeft x 4 = .ok (x <<< 4) := by
  have hlt : x.toNat <<< 4 < UInt32.size := by
    rw [Nat.shiftLeft_eq]
    exact Nat.mul_lt_mul_of_pos_right h (by decide)
  have hword : UInt32.ofNat (x.toNat <<< 4) = x <<< 4 := by
    rw [← UInt32.toNat_inj, UInt32.toNat_ofNat_of_lt' hlt, UInt32.toNat_shiftLeft]
    exact (Nat.mod_eq_of_lt hlt).symm
  rw [shiftLeft, word_eq hlt, hword]

theorem sub_eq (h : y.toNat ≤ x.toNat) : sub x y = .ok (x - y) :=
  if_pos (UInt32.le_iff_toNat_le.2 h)

theorem eq_of_sub {z : UInt32} (h : sub x y = .ok z) : z = x - y := by
  unfold sub at h
  split at h
  · exact (Except.ok.inj h).symm
  · cases h

theorem subCount_eq (h : b ≤ a) : subCount a b = .ok (a - b) := if_pos h

theorem slice_eq {body : ByteArray} (hstart : a ≤ b) (hstop : b ≤ body.size) :
    slice body a b = .ok (body.extract a b) := if_pos ⟨hstart, hstop⟩

end Words

/-! ## Blocks -/

/-- The size exponent, from the number of octets: how many zeros the number ends in,
but for four. -/
def szx (s : Size) : Checked ℕ := subCount (BitVec.ofNat 16 s.bytes).ctz.toNat 4

theorem szx_eq (s : Size) : szx s = .ok s.szx.val := by
  obtain ⟨szx⟩ := s
  revert szx
  decide

/-- `Header.value`, of which no bit of the number may be lost. -/
def value (h : Header) : Checked UInt32 := do
  let num ← shiftLeft h.num 4
  let szx ← szx h.size
  return num ||| (h.more.toUInt32 <<< 3) ||| UInt32.ofNat szx

theorem value_eq {h : Header} (hnum : h.num.toNat ≤ Header.maxNum) : value h = .ok h.value := by
  have hlt : h.num.toNat < 2 ^ 28 := lt_of_le_of_lt hnum (by decide)
  rw [value, shiftLeft_four_eq hlt, szx_eq]
  rfl

/-- `Size.blocksFor`. -/
def blocksFor (s : Size) (len : ℕ) : Checked ℕ := do
  let sum ← count (len + s.bytes)
  let top ← subCount sum 1
  return top / s.bytes

theorem blocksFor_eq {s : Size} {len : ℕ} (hlen : len ≤ maxBody) :
    blocksFor s len = .ok (s.blocksFor len) := by
  have hlt : len + s.bytes < UInt64.size := by
    have hsize := s.bytes_le
    have hmax : maxBody + 1024 < UInt64.size := by decide
    omega
  have hpos : 1 ≤ len + s.bytes := by
    have := s.bytes_pos
    omega
  rw [blocksFor, count_eq hlt, ok_bind, subCount_eq hpos]
  rfl

/-- `Block.cut?`. -/
def cut? (body : ByteArray) (size : Size) (num : UInt32) : Checked (Option Block) := do
  let offset ← count (num.toNat * size.bytes)
  if offset < body.size then
    let rest ← subCount body.size offset
    let stop ← count (offset + min size.bytes rest)
    let payload ← slice body offset stop
    return some { header := { num, more := stop < body.size, size }, offset, payload }
  else
    return none

/-- Where a block of any number at all would start can be computed. -/
theorem count_offset_eq (size : Size) (num : UInt32) :
    count (num.toNat * size.bytes) = .ok (num.toNat * size.bytes) := by
  refine count_eq ?_
  calc num.toNat * size.bytes
      ≤ UInt32.size * 1024 := Nat.mul_le_mul num.toNat_lt.le size.bytes_le
    _ < UInt64.size := by decide

/-- Any number at all may be asked for. -/
theorem cut?_eq {body : ByteArray} {size : Size} {num : UInt32} (hbody : body.size ≤ maxBody) :
    cut? body size num = .ok (Block.cut? body size num) := by
  have hmax : maxBody < UInt64.size := by decide
  rw [cut?, count_offset_eq, ok_bind]
  by_cases hlt : num.toNat * size.bytes < body.size
  · have hstop : num.toNat * size.bytes + min size.bytes (body.size - num.toNat * size.bytes) ≤
        body.size := by omega
    rw [if_pos hlt, subCount_eq hlt.le, ok_bind, count_eq (hstop.trans_lt (hbody.trans_lt hmax)),
      ok_bind, slice_eq (Nat.le_add_right _ _) hstop, Block.cut?, if_pos hlt]
    rfl
  · rw [if_neg hlt, Block.cut?, if_neg hlt]
    rfl

/-- `Digest.summary`. -/
def summary (d : Digest) (total : UInt32) : Checked String := do
  let position ← succ d.num
  return s!"block {position}/{total} (offset={d.offset}, len={d.len}, more={d.more})"

theorem summary_eq {d : Digest} {total : UInt32} (hnum : d.num.toNat < total.toNat) :
    summary d total = .ok (d.summary total) := by
  rw [summary, succ_eq hnum]
  rfl

/-! ## Windows -/

/-- `Window.CanSend`.  The difference is taken only while a block is left. -/
def canSend (w : Window) : Checked Bool :=
  if w.next < w.total then do
    let outstanding ← sub w.next w.highest
    return outstanding < w.limit && w.inFlight.size < w.limit.toNat
  else
    return false

/-- `Window.dispatch`. -/
def dispatch (w : Window) : Checked Window := do
  let next ← succ w.next
  return { w with inFlight := w.inFlight.insert w.next .first, next }

/-- `Window.IsLast`. -/
def isLast (w : Window) (num : UInt32) : Checked Bool := do
  let past ← succ num
  return past = w.total

/-- `Window.acknowledge`. -/
def acknowledge (w : Window) (num : UInt32) : Checked Window := do
  let past ← succ num
  return { w.settle num with highest := max w.highest past }

section Windows

variable {w : Window} {num : UInt32} {acked : Finset ℕ}

/-- A checked answer that is there is the answer. -/
theorem eq_of_canSend {answer : Bool} (h : canSend w = .ok answer) :
    answer = decide w.CanSend := by
  unfold canSend at h
  split at h
  · rename_i hlt
    obtain ⟨outstanding, houtstanding, h⟩ := exists_of_bind h
    obtain rfl := eq_of_sub houtstanding
    cases h
    simp only [Window.CanSend, hlt, true_and, Bool.decide_and]
  · rename_i hge
    cases h
    simp only [Window.CanSend, hge, false_and, decide_false]

theorem canSend_eq (h : w.highest.toNat ≤ w.next.toNat) :
    canSend w = .ok (decide w.CanSend) := by
  have hanswer : ∃ answer, canSend w = .ok answer := by
    rw [canSend, sub_eq h]
    split <;> exact ⟨_, rfl⟩
  obtain ⟨answer, hanswer⟩ := hanswer
  rw [hanswer, eq_of_canSend hanswer]

/-- A checked window that is there is the window. -/
theorem eq_of_dispatch {w' : Window} (h : dispatch w = .ok w') : w' = w.dispatch := by
  obtain ⟨next, hnext, h⟩ := exists_of_bind h
  obtain rfl := eq_of_succ hnext
  cases h
  rfl

theorem dispatch_eq (h : w.CanSend) : dispatch w = .ok w.dispatch := by
  rw [dispatch, succ_eq (UInt32.lt_iff_toNat_lt.1 h.1)]
  rfl

/-- A block that is out has a number past which there is another. -/
theorem succ_num_eq (h : w.Tracks acked) (hmem : num ∈ w.inFlight) : succ num = .ok (num + 1) :=
  succ_eq (h.mem_inFlight_iff.1 hmem).1

theorem isLast_eq (h : w.Tracks acked) (hmem : num ∈ w.inFlight) :
    isLast w num = .ok (decide (w.IsLast num)) := by
  rw [isLast, succ_num_eq h hmem]
  rfl

/-- Of a number that is not out, even this need not be asked. -/
example : isLast { total := 1, limit := 1 } 0xFFFFFFFF = .error .overflow := rfl

theorem acknowledge_eq (h : w.Tracks acked) (hmem : num ∈ w.inFlight) :
    acknowledge w num = .ok (w.acknowledge num) := by
  rw [acknowledge, succ_num_eq h hmem]
  rfl

end Windows

/-! ## Sessions -/

/-- `Session.ofUpload`.  The blocks are counted before any argument is looked at but the
block size, and the count is made a word after all of them. -/
def ofUpload (upload : Upload) (config : Config) (token : Token) (generation : UInt32) :
    Checked (Except Invalid Session) :=
  match Session.chooseSize upload config with
  | .error reason => .ok (.error reason)
  | .ok size => do
    let limit := upload.window.getD config.pacing.window
    let blocks ← blocksFor size upload.body.size
    if upload.target = "" then return .error .emptyPath
    if upload.body.size = 0 then return .error .emptyBody
    if limit = 0 then return .error .window
    if blocks > Header.maxNum + 1 then return .error (.tooManyBlocks blocks)
    let total ← word blocks
    return .ok {
      path := upload.target
      body := upload.body
      format := upload.format
      method := upload.method.getD config.method
      size
      token
      generation
      window := { total, limit } }

theorem ofUpload_eq {upload : Upload} (config : Config) (token : Token) (generation : UInt32)
    (hbody : upload.body.size ≤ maxBody) :
    ofUpload upload config token generation =
      .ok (Session.ofUpload upload config token generation) := by
  unfold ofUpload Session.ofUpload
  cases Session.chooseSize upload config with
  | error reason => rfl
  | ok size =>
    -- Each refusal is the same on both sides, and so is what passes them all.
    simp only [blocksFor_eq hbody, bind, Except.bind, pure, Except.pure, throw, throwThe,
      MonadExceptOf.throw]
    split
    · rfl
    split
    · rfl
    split
    · rfl
    split
    · rfl
    · rename_i hmany
      have hlt : size.blocksFor upload.body.size < UInt32.size :=
        lt_of_le_of_lt (Nat.not_lt.1 hmany) (by decide)
      rw [word_eq hlt]

/-- The octets in the blocks that are out, added one block after the other. -/
def pendingBytes (s : Session) : Checked ℕ :=
  s.window.inFlight.keys.foldlM (fun sum num => do
    match ← cut? s.body s.size num with
    | none => return sum
    | some b => count (sum + b.payload.size)) 0

/-- `Session.progress`. -/
def progress (s : Session) : Checked Progress := do
  let product ← count (s.window.next.toNat * s.size.bytes)
  let pending ← pendingBytes s
  let ackedBytes ← subCount (min product s.body.size) pending
  return {
    token := s.token
    totalBlocks := s.window.total
    nextToSend := s.window.next
    highestAcked := s.window.highest
    inFlight := s.window.inFlight.size
    window := s.window.limit
    totalBytes := s.body.size
    ackedBytes }

/-- Sums that fit when they are complete fit all along. -/
theorem foldlM_cut?_eq {body : ByteArray} {size : Size} (hbody : body.size ≤ maxBody) :
    ∀ {keys : List UInt32} {sum : ℕ},
      sum + (keys.map (size.blockLength body.size)).sum < UInt64.size →
      keys.foldlM (fun sum num => do
          match ← cut? body size num with
          | none => return sum
          | some b => count (sum + b.payload.size)) sum =
        Except.ok (ε := Fault) (sum + (keys.map (size.blockLength body.size)).sum) := by
  intro keys
  induction keys with
  | nil =>
    intro sum hfits
    rfl
  | cons num keys ih =>
    intro sum hfits
    rw [List.map_cons, List.sum_cons, ← Nat.add_assoc] at hfits ⊢
    rw [List.foldlM_cons, cut?_eq hbody, ← ih hfits]
    cases hcut : Block.cut? body size num with
    | none =>
      -- Past the end of the body there are no octets.
      have hzero : size.blockLength body.size num = 0 := by
        rw [Size.blockLength, Nat.sub_eq_zero_of_le (Block.cut?_eq_none_iff.1 hcut), Nat.min_zero]
      rw [hzero]
      rfl
    | some b =>
      show count _ >>= _ = _
      rw [Block.size_payload_of_cut? hcut, count_eq (by omega)]
      rfl

section Sessions

variable {a : Admission} {acked : Finset ℕ} {s : Session}

theorem pendingBytes_eq (h : a.Runs acked s) (hbody : s.body.size ≤ maxBody) :
    pendingBytes s = .ok s.pendingBytes := by
  have hfits : 0 + s.pendingBytes < UInt64.size := by
    have hpending := h.pendingBytes_le
    have hsent := s.sentBytes_le
    have hmax : maxBody < UInt64.size := by decide
    omega
  have hsum := foldlM_cut?_eq hbody hfits
  rw [Nat.zero_add] at hsum
  exact hsum

theorem progress_eq (h : a.Runs acked s) (hbody : s.body.size ≤ maxBody) :
    progress s = .ok s.progress := by
  rw [progress, count_offset_eq, ok_bind, pendingBytes_eq h hbody, ok_bind, ← Session.sentBytes,
    subCount_eq h.pendingBytes_le]
  rfl

end Sessions

end Checked

end Blockwise
