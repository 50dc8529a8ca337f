import Blockwise.Proofs.Accepting
import Blockwise.Proofs.Calls
import Blockwise.Proofs.Change
/-!
# How far sending runs ahead

A window of `n` blocks lets sending run ahead of the acknowledgements.  By how much
depends on their order.  The window counts the blocks that wait for an answer, so what
has to precede block `i` is that enough blocks were acknowledged, and not which: at
least `i - n + 1` of those before it (`sliding_window`).

**In order, the oldest block holds back the window.**  If the blocks that were
acknowledged are the first ones, block `i - n` is one of them.  If an early
acknowledgement came for a late block, it need not be: block `i - n` may still wait
for an answer when block `i` is handed over (`oldest_block_overtaken`).  Even then
block `i - n` or a later one was acknowledged, for the other bound of the window is on
the stretch from the highest acknowledged block.
-/

namespace Blockwise

variable {ι σ μ β ε : Type}

/-! ## Windows that may send -/

namespace Window.Tracks

variable {w : Window} {acked : Finset ℕ}

/-- Where a block may go out, fewer blocks than the window holds are unanswered. -/
theorem next_lt_of_canSend (h : w.Tracks acked) (hsend : w.CanSend) :
    w.next.toNat < w.limit.toNat + acked.card := by
  have hsize := (h.canSend_iff.1 hsend).2
  have hadd := h.size_add_card
  omega

/-- Where a block may go out, some acknowledged block is within the window before it. -/
theorem exists_acked_of_canSend (h : w.Tracks acked) (hsend : w.CanSend)
    (hle : w.limit.toNat ≤ w.next.toNat) : ∃ k ∈ acked, w.next.toNat - w.limit.toNat ≤ k := by
  by_contra! hnone
  -- All acknowledged blocks would lie before the window, and be too few.
  have hsub : acked ⊆ Finset.range (w.next.toNat - w.limit.toNat) := by
    intro k hk
    exact Finset.mem_range.2 (hnone k hk)
  have hcard := Finset.card_le_card hsub
  have hlt := h.next_lt_of_canSend hsend
  rw [Finset.card_range] at hcard
  omega

/-- Where a block may go out, and the first blocks were acknowledged, the one that the
window reaches back to is among them. -/
theorem mem_acked_of_canSend (h : w.Tracks acked) (hsend : w.CanSend)
    (hle : w.limit.toNat ≤ w.next.toNat) (hfirst : acked = Finset.range acked.card) :
    w.next.toNat - w.limit.toNat ∈ acked := by
  have hlt := h.next_lt_of_canSend hsend
  rw [hfirst, Finset.mem_range]
  omega

end Window.Tracks

/-! ## The session that sends -/

/-- What enters the filling loop is a session of the latest record. -/
theorem History.Sound.runs_head [Inspector ι] {t : Transport σ μ β ε} {h : History ι σ}
    (hs : h.Sound) {event : Event} {x : Filling ι σ}
    (henters : Engine.Enters t h.engine h.link.link event x)
    (hrefused : ∀ failure, (Engine.handle t event h.engine h.link.link).result =
      some (.error failure) → failure.isAdmission = false) :
    ∃ r ∈ (h.handled t event).records.head?, r.admission.Runs r.acked x.session := by
  cases event with
  | admissionRequested upload =>
    have hresult : (Engine.handle t.ledgered (.admissionRequested upload) h.engine h.link).result =
        (Engine.handle t (.admissionRequested upload) h.engine h.link.link).result := by
      rw [← Engine.handle_ledgered]
      rfl
    rw [← hresult] at hrefused
    unfold History.handled History.noted
    dsimp only
    generalize Engine.handle t.ledgered (.admissionRequested upload) h.engine h.link = reaction
      at hrefused ⊢
    have hadmitted : (Answer.outcome reaction.result).isRefusal = false := by
      generalize reaction.result = outcome at hrefused ⊢
      obtain _ | failure | report := outcome
      · rfl
      · exact hrefused failure rfl
      · rfl
    rw [hadmitted, if_neg Bool.false_ne_true]
    exact ⟨_, rfl, henters.runs_of_admission⟩
  | blockAckReceived c =>
    obtain ⟨s, howner, -, -, hruns⟩ := henters.runs_of_ack
    obtain ⟨r, rest, -, hdrives, -, hnoted⟩ := hs.exists_latest howner
    unfold History.handled
    dsimp only
    rw [hnoted]
    exact ⟨_, rfl, hruns hdrives.runs⟩
  | transferApplied c code => cases henters
  | blockRejected c code => cases henters
  | blockTimedOut c => cases henters
  | cancelled => cases henters

/-- **A sliding window.**  Take any run on a recorded transport, one more operation, and
any message that it hands over to the transport, taken or not.  The message is that of a
block of the latest session.  Of the blocks before it at most as many are not yet
acknowledged as the window holds besides it.  If the block is further from the first
than the window is wide, then a block within the window before it was acknowledged; and
if no acknowledgement came out of order, so that the acknowledged blocks are the first
ones, then the block was that the window reaches back to. -/
theorem sliding_window [Inspector ι] (t : Transport σ μ β ε) (stream : WordStream)
    (config : Config) (inspector : ι) (link : σ) (ops : List Operation) (op : Operation) :
    let fresh := Engine.ofStream stream config inspector
    let h := (History.ofEngine fresh { link }).run t.recorded ops
    let h' := h.step t.recorded op
    ∀ c ∈ h'.link.link.handed.drop h.link.link.handed.length,
      ∃ r ∈ h'.records.head?, c = r.admission.completion c.num.toNat ∧
        (∀ k ∈ r.acked, k < c.num.toNat) ∧
        c.num.toNat < r.admission.limit.toNat + r.acked.card ∧
        (r.admission.limit.toNat ≤ c.num.toNat →
          (∃ k ∈ r.acked, c.num.toNat - r.admission.limit.toNat ≤ k) ∧
          (r.acked = Finset.range r.acked.card →
            c.num.toNat - r.admission.limit.toNat ∈ r.acked)) := by
  intro fresh h h' c hc
  have hs : h.Sound := (History.Sound.ofEngine rfl).run ops
  obtain ⟨news, hnews, hhanded⟩ :=
    Engine.hands_handle t op.event h.engine h.link.link
  have hlink : h'.link.link = (Engine.handle t.recorded op.event h.engine h.link.link).link := by
    rw [(History.step_engine t.recorded h op).2, Engine.perform_eq]
    rfl
  rw [hlink, hnews, List.drop_left] at hc
  obtain ⟨⟨x, y, henters, hrounds, hsend, rfl⟩, hrefused⟩ := hhanded c hc
  obtain ⟨r, hr, hruns⟩ := hs.runs_head henters hrefused
  have hy := hrounds.runs hruns
  have htracks := hy.tracks
  have hlimit := hy.limit_eq
  refine ⟨r, ?_, ?_, ?_, ?_, ?_⟩
  · show r ∈ (h.step t.recorded op).records.head?
    rw [History.step_eq]
    exact hr
  · rw [hy.session_eq]
    unfold Session.completion Admission.completion
    rw [UInt32.ofNat_toNat]
    rfl
  · exact htracks.lt_next
  · rw [← hlimit]
    exact htracks.next_lt_of_canSend hsend
  · rw [← hlimit]
    intro hle
    exact ⟨htracks.exists_acked_of_canSend hsend hle, htracks.mem_acked_of_canSend hsend hle⟩

/-- The first block of the sample is acknowledged, and its third is handed over: the window
of two blocks reaches back to the first. -/
theorem sliding_window_sample :
    let a := (Engine.new default ()).admission .sample
    let h := (History.ofEngine (Engine.new default ()) { link := () }).run Transport.sink.recorded
      [.start .sample]
    let h' := h.step Transport.sink.recorded (.handle (.blockAckReceived (a.completion 0)))
    a.completion 2 ∈ h'.link.link.handed.drop h.link.link.handed.length ∧
      ∃ r ∈ h'.records.head?, a.completion 2 = r.admission.completion 2 ∧
        r.admission.limit.toNat = 2 ∧ r.acked = Finset.range r.acked.card ∧
        2 < r.admission.limit.toNat + r.acked.card ∧
        (∃ k ∈ r.acked, 2 - r.admission.limit.toNat ≤ k) ∧
        2 - r.admission.limit.toNat ∈ r.acked := by
  intro a h h'
  have hmem : a.completion 2 ∈ h'.link.link.handed.drop h.link.link.handed.length := by
    decide +kernel
  have hrecords : h'.records.map (fun r => (r.admission.limit.toNat, r.acked)) =
      [(2, Finset.range 1)] := by decide +kernel
  obtain ⟨r, hr, hcompletion, -, hlt, hle⟩ := sliding_window .sink (.ofSeed 0) default () ()
    [.start .sample] (.handle (.blockAckReceived (a.completion 0))) _ hmem
  obtain ⟨latest, _, hlatest, hfirst, -⟩ := List.map_eq_cons_iff.1 hrecords
  obtain rfl : latest = r := Option.some.inj ((congrArg List.head? hlatest).symm.trans hr)
  obtain ⟨hlimit, hacked⟩ := Prod.mk.inj hfirst
  have hinorder : latest.acked = Finset.range latest.acked.card := by
    rw [hacked, Finset.card_range]
  obtain ⟨hwithin, holdest⟩ := hle hlimit.le
  exact ⟨hmem, latest, hr, hcompletion, hlimit, hinorder, hlt, hwithin, holdest hinorder⟩

/-- **The oldest block may be overtaken.**  With a window of two blocks, block 2 of the
sample is handed over when block 1 was acknowledged, while block 0 still waits for its
answer. -/
theorem oldest_block_overtaken :
    let a := (Engine.new default ()).admission .sample
    let h := (History.ofEngine (Engine.new default ()) { link := () }).run Transport.sink.recorded
      [.start .sample, .handle (.blockAckReceived (a.completion 1))]
    a.completion 2 ∈ h.link.link.handed ∧ a.limit.toNat = 2 ∧
      ∃ r ∈ h.records.head?, r.admission.token = a.token ∧ 2 - a.limit.toNat ∉ r.acked := by
  intro a h
  have hhanded : a.completion 2 ∈ h.link.link.handed := by decide +kernel
  have hrecords : h.records.map (fun r => (r.admission.token, decide (0 ∈ r.acked))) =
      [(a.token, false)] := by decide +kernel
  obtain ⟨r, _, hr, hfirst, -⟩ := List.map_eq_cons_iff.1 hrecords
  obtain ⟨htoken, hacked⟩ := Prod.ext_iff.1 hfirst
  rw [hr]
  exact ⟨hhanded, rfl, r, rfl, htoken, of_decide_eq_false hacked⟩

end Blockwise
