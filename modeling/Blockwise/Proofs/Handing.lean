import Blockwise.Proofs.Admission
/-!
# Blocks handed over one after the other

What a session sends, and in which order, is settled by its admission.  So is what it asks
of the transport: for each block the same six calls, in the same order
(`Admission.hand`).

**The filling loop is a plain one** (`Filling.outcome_fill`).  It looks at the window
before every block.  But how many blocks it will hand over is known when it is entered:
those up to `Admission.reach`, as far as nothing is refused.  So it is the same as to hand
these blocks over one after the other, and to stop at the first failure.
-/

namespace Blockwise

variable {ι σ μ β ε ε' α γ : Type}

/-- Errors may be adapted before or after computations are put together. -/
theorem adaptExcept_bind (x : EStateM ε σ α) (f : α → EStateM ε σ γ) (g : ε → ε') :
    (x >>= f).adaptExcept g = x.adaptExcept g >>= fun a => (f a).adaptExcept g := by
  funext link
  simp only [bind, EStateM.bind, EStateM.adaptExcept]
  cases x link <;> rfl

namespace Admission

variable (a : Admission)

/-- What is said of block `i` beside its payload. -/
def header (i : ℕ) : Header where
  num := UInt32.ofNat i
  more := decide (i + 1 ≠ a.total)
  size := a.size

/-- Block `i` of the body. -/
def block (i : ℕ) : Block where
  header := a.header i
  offset := i * a.size.bytes
  payload := Block.payloadAt a.upload.body a.size i

/-- Asks for a message, has it filled with block `i` and hands it over.  A failure before
the message is handed over is one of resources, whichever call it is, and a failure of the
last call one of sending. -/
def hand (t : Transport σ μ β ε) (i : ℕ) : EStateM (DispatchError ε) σ Unit := do
  let unfilled := fun e => DispatchError.resourceExhausted (t.ofBuildError e)
  let message ← (t.create a.method a.token).adaptExcept .resourceExhausted
  let message ← (t.setPath a.upload.target message).adaptExcept unfilled
  let message ← (t.setFormat a.upload.format message).adaptExcept unfilled
  let message ← (t.setBlock (a.header i) message).adaptExcept unfilled
  let message ← (t.setPayload (Block.payloadAt a.upload.body a.size i) message).adaptExcept unfilled
  (t.send message (a.completion i)).adaptExcept .sendFailed

/-- Hands over `count` blocks from block `first` on, up to the first that is not taken. -/
def handAll (t : Transport σ μ β ε) (first count : ℕ) : EStateM (DispatchError ε) σ Unit :=
  forM (List.range' first count) (a.hand t)

/-- How many blocks the window and the body allow to have been sent when `k` blocks were
acknowledged. -/
def reach (k : ℕ) : ℕ := min a.total (a.limit.toNat + k)

variable {a}

theorem handAll_succ (t : Transport σ μ β ε) (first count : ℕ) :
    a.handAll t first (count + 1) = a.hand t first >>= fun _ => a.handAll t (first + 1) count := by
  unfold handAll
  rw [List.range'_succ, List.forM_cons]

/-- A session of the admission hands over a block as the admission says, whatever its
window is. -/
theorem deliver_block (t : Transport σ μ β ε) (w : Window) (i : ℕ) :
    (a.session w).deliver t (a.block i) = a.hand t i := by
  unfold Session.deliver Admission.hand Transport.fill
  simp only [adaptExcept_bind, bind_assoc]
  rfl

namespace Runs

variable {acked : Finset ℕ} {s : Session} {num : UInt32} {b : Block}

/-- A block of the session is the one that its admission settles. -/
theorem block_eq (h : a.Runs acked s) (hblock : s.block? num = some b) :
    b = a.block num.toNat := by
  rw [h.block?_eq] at hblock
  have hlt : num.toNat < a.total := by
    refine Nat.not_le.1 fun hle => ?_
    rw [Block.cut?_eq_none_of_le hle] at hblock
    cases hblock
  rw [Block.cut?_of_lt hlt] at hblock
  cases hblock
  unfold block header
  rw [UInt32.ofNat_toNat]
  rfl

theorem deliver_eq (h : a.Runs acked s) (t : Transport σ μ β ε)
    (hblock : s.block? num = some b) : s.deliver t b = a.hand t num.toNat := by
  rw [h.block_eq hblock, h.session_eq]
  exact deliver_block t _ _

/-- A block may go out as long as fewer were sent than the window and the body allow. -/
theorem canSend_iff_lt_reach (h : a.Runs acked s) :
    s.window.CanSend ↔ s.window.next.toNat < a.reach acked.card := by
  have hadd := h.tracks.size_add_card
  rw [h.tracks.canSend_iff, h.toNat_total, h.limit_eq]
  unfold reach
  omega

theorem next_le_reach (h : a.Runs acked s) : s.window.next.toNat ≤ a.reach acked.card := by
  have hadd := h.tracks.size_add_card
  have hsize := h.tracks.size_le
  have hnext := h.next_le
  rw [h.limit_eq] at hsize
  unfold reach
  omega

/-- A session that waits has sent as many blocks as it may. -/
theorem next_eq_reach (h : a.Runs acked s) (hrest : ¬ s.window.CanSend) :
    s.window.next.toNat = a.reach acked.card := by
  have hle := h.next_le_reach
  rw [h.canSend_iff_lt_reach] at hrest
  omega

end Runs

end Admission

/-! ## The filling loop -/

/-- What came of the loop, and the link after it. -/
def Filled.outcome (f : Filled ι σ ε) : EStateM.Result (DispatchError ε) σ Unit :=
  match f.result with
  | .ok _ => .ok () f.link
  | .error e => .error e f.link

/-- The loop hands over the blocks that are left up to where the window reaches, one after
the other. -/
theorem Filling.outcome_fill [Inspector ι] {a : Admission} {acked : Finset ℕ} {x : Filling ι σ}
    (t : Transport σ μ β ε) (hx : a.Runs acked x.session) :
    (x.fill t).outcome =
      a.handAll t x.session.window.next.toNat
        (a.reach acked.card - x.session.window.next.toNat) x.link := by
  -- Every round hands over one of the blocks that are left.
  induction hcount : a.reach acked.card - x.session.window.next.toNat generalizing x with
  | zero =>
    have hsend : ¬ x.session.window.CanSend := by
      rw [hx.canSend_iff_lt_reach]
      omega
    rw [Filling.fill, Session.fill_of_not_canSend hsend]
    rfl
  | succ count ih =>
    have hsend : x.session.window.CanSend := by
      rw [hx.canSend_iff_lt_reach]
      omega
    obtain ⟨b, hblock⟩ := hx.exists_block? hsend
    have hhand := hx.deliver_eq t hblock
    rw [Admission.handAll_succ, ← hhand]
    show _ = EStateM.bind _ _ _
    unfold EStateM.bind
    cases hdeliver : x.session.deliver t b x.link with
    | error e link =>
      rw [Filling.fill, Session.fill_of_deliver_error hsend hblock hdeliver]
      rfl
    | ok u link =>
      have hround : Round t x (x.sent b link) := .sent hsend hblock hdeliver
      have hnext : (x.sent b link).session.window.next.toNat = x.session.window.next.toNat + 1 :=
        Window.toNat_next_add_one hsend
      rw [hround.fill_eq, ih (hround.runs hx) (by omega), hnext]
      rfl

end Blockwise
