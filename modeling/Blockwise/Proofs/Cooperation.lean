import Mathlib.Data.Finset.Dedup
import Mathlib.Data.Multiset.AddSub
import Blockwise.Proofs.Accepting
import Blockwise.Proofs.Sending
/-!
# A cooperative transfer always completes

A transport that accepts everything, and a server that wants every block, answer
the messages of an upload one after the other.  The order is theirs: any message
that was taken and has no answer yet may be answered next, the last block before
the earlier ones, too.

`Transfer` is such an upload under way, with the messages that wait for an
answer, and `Transfer.Answers` the states that it can come to before the last
block is answered.  In each of them some message waits, and the answer to the
last block completes the upload (`cooperative_transfer`).

**Accounting.**  The proof follows one equation, `Transfer.Underway.pending_add`:
what waits and what was acknowledged is together what was taken.  The engine
sends on whenever the window allows it, so if nothing waited everything would
have been acknowledged, and the last block never is.
-/

namespace Blockwise

variable {ι σ μ β ε : Type}

/-- An upload under way, with the messages that were taken for it and wait for an
answer. -/
structure Transfer (ι σ : Type) where
  engine : Engine ι
  link : Ledgered σ
  pending : List Parcel

namespace Transfer

variable [Inspector ι] (t : Transport σ μ β ε)

/-- What the engine makes of the answer `code` to the message `p`. -/
def reply (x : Transfer ι σ) (p : Parcel) (code : Code) : Reaction ι (Ledgered σ) (Answer ε) :=
  Engine.perform t.ledgered (.complete p.completion (some code)) x.engine x.link

/-- The transfer after a message was answered by `code`, where `rest` waited
besides. -/
def answer (x : Transfer ι σ) (p : Parcel) (rest : List Parcel) (code : Code) : Transfer ι σ :=
  let r := x.reply t p code
  { engine := r.engine
    link := r.link
    pending := rest ++ r.link.taken.drop x.link.taken.length }

/-- The transfer that begins with the start of an upload, from a ledger without
entries. -/
def begin (upload : Upload) (e : Engine ι) (link : σ) : Transfer ι σ :=
  let r := Engine.perform t.ledgered (.start upload) e { link }
  { engine := r.engine
    link := r.link
    pending := r.link.taken }

/-- The states that the transfer `x₀` can come to by `n` answers, each to some
message that waits and says that more blocks follow, and each of which asks for
more. -/
inductive Answers (x₀ : Transfer ι σ) : ℕ → Transfer ι σ → Prop
  | none : Answers x₀ 0 x₀
  | answer {n : ℕ} {x : Transfer ι σ} {p : Parcel} {before after : List Parcel}
      (h : Answers x₀ n x) (hpending : x.pending = before ++ p :: after) (hmore : p.more = true) :
      Answers x₀ (n + 1) (x.answer t p (before ++ after) .continued)

/-- The transfer is of this admission, its active session is `s`, and the blocks
in `acked`, and no others, were acknowledged. -/
structure Underway (x : Transfer ι σ) (a : Admission) (acked : Finset ℕ) (s : Session) : Prop where
  active : x.engine.session? = some s
  runs : a.Runs acked s
  rests : ¬ s.window.CanSend
  taken_eq : x.link.taken = a.parcels s.window.next.toNat
  /-- What was taken waits or was acknowledged. -/
  pending_add : (x.pending : Multiset Parcel) + acked.val.map a.parcel = x.link.taken

namespace Underway

omit [Inspector ι]

variable {x : Transfer ι σ} {a : Admission} {acked : Finset ℕ} {s : Session} {p : Parcel}

/-- As many messages wait as blocks are out. -/
theorem length_pending (h : x.Underway a acked s) : x.pending.length = s.window.inFlight.size := by
  have hcard := congrArg Multiset.card h.pending_add
  rw [Multiset.card_add, Multiset.card_map, Multiset.coe_card, Multiset.coe_card, h.taken_eq,
    Admission.length_parcels, ← h.runs.tracks.size_add_card] at hcard
  exact Nat.add_right_cancel hcard

/-- Some message waits. -/
theorem pending_ne_nil (h : x.Underway a acked s) : x.pending ≠ [] := by
  intro hnil
  have hsize := h.length_pending
  rw [hnil, List.length_nil] at hsize
  exact absurd hsize (h.runs.size_inFlight_pos h.rests).ne

/-- A message that waits is that of a block that was sent and not acknowledged. -/
theorem exists_of_mem (h : x.Underway a acked s) (hp : p ∈ x.pending) :
    ∃ i, a.parcel i = p ∧ i < s.window.next.toNat ∧ i ∉ acked := by
  have htaken : p ∈ x.link.taken := by
    rw [← Multiset.mem_coe, ← h.pending_add]
    exact Multiset.mem_add.2 (.inl hp)
  rw [h.taken_eq] at htaken
  obtain ⟨i, hi, rfl⟩ := Admission.mem_parcels.1 htaken
  refine ⟨i, rfl, hi, fun hack => ?_⟩
  -- Otherwise it would be in the ledger twice.
  have hnodup : (x.link.taken : Multiset Parcel).Nodup := by
    rw [h.taken_eq]
    exact h.runs.valid.nodup_parcels h.runs.next_le
  rw [← h.pending_add, Multiset.nodup_add] at hnodup
  exact Multiset.disjoint_left.1 hnodup.2.2 hp (Multiset.mem_map_of_mem _ hack)

/-- The session acts on the answer to a message that waits, and the message says
that more blocks follow exactly when its block is not the last. -/
theorem exists_owned (h : x.Underway a acked s) (hp : p ∈ x.pending) :
    ∃ i, a.parcel i = p ∧ p.completion.num.toNat = i ∧ i ∉ acked ∧
      x.engine.owner? p.completion = some s ∧
      (p.more = true ↔ ¬ s.window.IsLast p.completion.num) := by
  obtain ⟨i, rfl, hi, hack⟩ := h.exists_of_mem hp
  have htotal : i < a.total := hi.trans_le h.runs.next_le
  have hnum := h.runs.valid.toNat_num htotal
  refine ⟨i, rfl, hnum, hack, ?_, ?_⟩
  · have hcompletion : (a.parcel i).completion = s.completion (a.parcel i).completion.num := by
      rw [h.runs.session_eq]
      rfl
    rw [Engine.owner?_eq_some_iff, hcompletion, Session.owns_completion_iff,
      h.runs.tracks.mem_inFlight_iff, hnum]
    exact ⟨h.active, hi, hack⟩
  · rw [h.runs.valid.more_parcel_iff htotal]
    unfold Window.IsLast
    rw [h.runs.total_eq]
    rfl

/-- The messages that wait are known by their numbers. -/
theorem pending_eq (h : x.Underway a acked s) {nums : List ℕ}
    (hnums : x.pending.map (·.completion.num.toNat) = nums) : x.pending = nums.map a.parcel := by
  have hself : ∀ p ∈ x.pending, p = a.parcel p.completion.num.toNat := by
    intro p hp
    obtain ⟨i, rfl, hnum, -⟩ := h.exists_owned hp
    rw [hnum]
  calc x.pending
      = x.pending.map id := (List.map_id _).symm
    _ = x.pending.map fun p => a.parcel p.completion.num.toNat := List.map_congr_left hself
    _ = nums.map a.parcel := by
      rw [← hnums, List.map_map]
      rfl

end Underway

/-! ## The course of a transfer -/

variable {t : Transport σ μ β ε} {e : Engine ι} {upload : Upload} {x : Transfer ι σ}
  {a : Admission} {acked : Finset ℕ} {s : Session} {p : Parcel} {before after : List Parcel}

/-- A valid upload is admitted, and its first messages wait. -/
theorem begin_underway (ht : t.Accepting) (hfree : e.session? = none)
    (hvalid : (e.admission upload).Valid) (link : σ) :
    (Engine.perform t.ledgered (.start upload) e { link }).result = .admission (.ok ()) ∧
      ∃ s, (begin t upload e link).Underway (e.admission upload) ∅ s := by
  obtain ⟨x, henters, hhandle⟩ :=
    Engine.handle_request_of_accepting ht.ledgered hfree hvalid { link }
  obtain ⟨hsends, -⟩ := henters.sends_of_admission
  obtain ⟨hruns, htaken, hrests⟩ := hsends.fill (t := t)
  have hresult := ht.ledgered.result_fill x
  unfold begin
  rw [Engine.perform_eq, Operation.event, hhandle]
  refine ⟨rfl, (x.fill t.ledgered).session, rfl, hruns, hrests hresult, htaken, ?_⟩
  exact Multiset.add_zero _

/-- An answer that asks for more is met with silence, and what it makes the
session send waits besides what waited before. -/
theorem Underway.answer (ht : t.Accepting) (h : x.Underway a acked s)
    (hpending : x.pending = before ++ p :: after) (hmore : p.more = true) :
    (x.reply t p .continued).result = .outcome none ∧
      ∃ s' acked', (x.answer t p (before ++ after) .continued).Underway a acked' s' ∧
        acked'.card = acked.card + 1 := by
  have hp : p ∈ x.pending := by
    rw [hpending]
    exact List.mem_append_right _ List.mem_cons_self
  obtain ⟨i, hparcel, hnum, hack, howner, hlast⟩ := h.exists_owned hp
  obtain ⟨y, henters, hhandle⟩ :=
    Engine.handle_ack_of_accepting ht.ledgered howner (hlast.1 hmore) x.link
  obtain ⟨s', howner', hlink, hnext, hruns⟩ := henters.runs_of_ack
  cases howner.symm.trans howner'
  have hsends : y.Sends a (insert i acked) [] := by
    refine ⟨?_, ?_⟩
    · rw [← hnum]
      exact hruns h.runs
    · rw [hlink, h.taken_eq, hnext, List.nil_append]
  obtain ⟨hruns', htaken, hrests⟩ := hsends.fill (t := t)
  have hresult := ht.ledgered.result_fill y
  obtain ⟨news, hnews⟩ := Filling.taken_prefix_fill (t := t) y
  rw [hlink] at hnews
  have hreply : x.reply t p .continued = _ :=
    (Engine.perform_eq t.ledgered _ x.engine x.link).trans (congrArg (Reaction.map _) hhandle)
  unfold Transfer.answer
  rw [hreply]
  refine ⟨rfl, (y.fill t.ledgered).session, insert i acked,
    ⟨rfl, hruns', hrests hresult, htaken, ?_⟩, Finset.card_insert_of_notMem hack⟩
  show ((before ++ after ++ (y.fill t.ledgered).link.taken.drop x.link.taken.length :
    List Parcel) : Multiset Parcel) + _ = ((y.fill t.ledgered).link.taken : Multiset Parcel)
  have hadd := h.pending_add
  have hmiddle : (x.pending : Multiset Parcel) = p ::ₘ ((before ++ after : List Parcel) :) := by
    rw [hpending]
    exact Multiset.coe_eq_coe.2 List.perm_middle
  rw [hmiddle] at hadd
  generalize before ++ after = rest at hadd ⊢
  rw [← hnews, List.drop_left, Finset.insert_val_of_notMem hack, Multiset.map_cons, hparcel,
    ← Multiset.coe_add, ← Multiset.coe_add, ← hadd, Multiset.add_cons, Multiset.cons_add,
    Multiset.cons_add, add_right_comm]

/-- The answer to the last block completes the upload. -/
theorem Underway.report (h : x.Underway a acked s) (hp : p ∈ x.pending) (hmore : p.more = false)
    {code : Code} (hcode : code = .changed ∨ code = .created) :
    (x.reply t p code).result = .outcome (some (.ok
        { token := a.token, blocks := s.window.total, bytes := a.upload.body.size, code })) ∧
      (x.reply t p code).link.taken = a.parcels a.total := by
  obtain ⟨i, rfl, hnum, hack, howner, hlast⟩ := h.exists_owned hp
  have hevent : (Operation.complete (a.parcel i).completion (some code)).event =
      .transferApplied (a.parcel i).completion code := by
    rcases hcode with rfl | rfl <;> rfl
  have hreply : x.reply t (a.parcel i) code =
      (Engine.applied s (a.parcel i).completion.num code x.engine x.link).map .outcome := by
    unfold reply
    rw [Engine.perform_eq, hevent, Engine.handle, Engine.forOwner, howner]
    rfl
  -- The last block was sent, so all were.
  have hnext : s.window.next.toNat = a.total := by
    have hmem := (Engine.owner?_eq_some_iff.1 howner).2.2.2
    have hlt := (h.runs.tracks.mem_inFlight_iff.1 hmem).1
    have hle := h.runs.tracks.next_le
    have hislast : s.window.IsLast (a.parcel i).completion.num := by
      by_contra hnot
      rw [hlast.2 hnot] at hmore
      cases hmore
    rw [Window.isLast_iff (hlt.trans_le hle)] at hislast
    rw [← h.runs.toNat_total]
    omega
  rw [hreply]
  refine ⟨?_, ?_⟩
  · unfold Engine.applied
    rw [h.runs.session_eq]
    rfl
  · rw [← hnext, ← h.taken_eq]
    rfl

/-- The states that a transfer comes to are under way. -/
theorem Answers.underway {x₀ : Transfer ι σ} {n : ℕ} (ht : t.Accepting)
    (h : x₀.Answers t n x) (h₀ : x₀.Underway a ∅ s) :
    ∃ s' acked, x.Underway a acked s' ∧ acked.card = n := by
  induction h with
  | none => exact ⟨s, ∅, h₀, rfl⟩
  | answer _ hpending hmore ih =>
    obtain ⟨s', acked, hunderway, hcard⟩ := ih
    obtain ⟨-, s'', acked', hunderway', hcard'⟩ := hunderway.answer ht hpending hmore
    exact ⟨s'', acked', hunderway', by rw [hcard', hcard]⟩

end Transfer

/-- **Any-order completion.**  On a transport that accepts everything, a valid
upload that finds the slot free is admitted.  Whatever messages were then
answered, in whatever order, as long as the last block was not among them:

* some message waits, and fewer were answered than there are blocks;
* an answer to one that says that more follow is met with silence;
* the answer to the one that says otherwise completes the upload, with a report of
  it, and by then every block was taken exactly once, in order, and the payloads
  put together are the body. -/
theorem cooperative_transfer [Inspector ι] {t : Transport σ μ β ε} (ht : t.Accepting)
    {e : Engine ι} (hfree : e.session? = none) {upload : Upload}
    (hvalid : (e.admission upload).Valid) (link : σ) :
    let a := e.admission upload
    (Engine.perform t.ledgered (.start upload) e { link }).result = .admission (.ok ()) ∧
    ∀ n x, (Transfer.begin t upload e link).Answers t n x →
      x.pending ≠ [] ∧ n < a.total ∧
      ∀ p ∈ x.pending,
        (p.more = true → (x.reply t p .continued).result = .outcome none) ∧
        (p.more = false → ∀ code, code = .changed ∨ code = .created →
          (∃ report : Report, (x.reply t p code).result = .outcome (some (.ok report)) ∧
            report.token = a.token ∧ report.blocks.toNat = upload.body.size ⌈/⌉ a.size.bytes ∧
            report.bytes = upload.body.size ∧ report.code = code) ∧
          n + 1 ≤ a.total ∧
          (x.reply t p code).link.taken = (List.range a.total).map a.parcel ∧
          assemble ((x.reply t p code).link.taken.map (·.payload)) = upload.body) := by
  intro a
  obtain ⟨hadmitted, s₀, h₀⟩ := Transfer.begin_underway ht hfree hvalid link
  refine ⟨hadmitted, fun n x hanswers => ?_⟩
  obtain ⟨s, acked, h, rfl⟩ := hanswers.underway ht h₀
  refine ⟨h.pending_ne_nil, h.runs.card_lt_total, fun p hp => ⟨fun hmore => ?_, ?_⟩⟩
  · obtain ⟨before, after, hpending⟩ := List.append_of_mem hp
    exact (h.answer ht hpending hmore).1
  · intro hmore code hcode
    obtain ⟨hresult, htaken⟩ := h.report (t := t) hp hmore hcode
    refine ⟨⟨_, hresult, rfl, ?_, rfl, rfl⟩, h.runs.card_lt_total, htaken, ?_⟩
    · rw [h.runs.toNat_total]
      exact Size.blocksFor_eq_ceilDiv _ _
    · rw [htaken]
      exact Admission.assemble_parcels

/-- The second message of the sample is answered first, and makes the third go out; then the
first message is answered, and at last the third, which the server applies the body for. -/
theorem cooperative_transfer_sample :
    let fresh := Engine.new default ()
    let a := fresh.admission .sample
    let x₀ := Transfer.begin .sink .sample fresh ()
    let x₁ := x₀.answer .sink (a.parcel 1) [a.parcel 0] .continued
    let x₂ := x₁.answer .sink (a.parcel 0) [a.parcel 2] .continued
    let last := x₂.reply .sink (a.parcel 2) .changed
    Transport.sink.Accepting ∧ a.Valid ∧
      (Engine.perform Transport.sink.ledgered (.start .sample) fresh { link := () }).result =
        .admission (.ok ()) ∧
      x₀.pending = [a.parcel 0, a.parcel 1] ∧
      (x₀.reply .sink (a.parcel 1) .continued).result = .outcome none ∧
      x₁.pending = [a.parcel 0, a.parcel 2] ∧
      (x₁.reply .sink (a.parcel 0) .continued).result = .outcome none ∧
      x₂.pending = [a.parcel 2] ∧ x₀.Answers .sink 2 x₂ ∧
      (∃ report : Report, last.result = .outcome (some (.ok report)) ∧ report.token = a.token ∧
        report.blocks.toNat = 3 ∧ report.bytes = 40 ∧ report.code = .changed) ∧
      last.link.taken = [a.parcel 0, a.parcel 1, a.parcel 2] ∧
      assemble (last.link.taken.map (·.payload)) = Upload.sample.body := by
  intro fresh a x₀ x₁ x₂ last
  have hvalid : a.Valid := Upload.sample_valid fresh
  have hmore : (a.parcel 0).more = true ∧ (a.parcel 1).more = true ∧ (a.parcel 2).more = false := by
    decide +kernel
  obtain ⟨hadmitted, htransfer⟩ :=
    cooperative_transfer Transport.sink_accepting (e := fresh) rfl hvalid ()
  obtain ⟨-, s₀, h₀⟩ :=
    Transfer.begin_underway Transport.sink_accepting (e := fresh) rfl hvalid ()
  -- Each state is known by the numbers of the messages that wait in it.
  have hpending₀ : x₀.pending = [a.parcel 0] ++ a.parcel 1 :: [] :=
    h₀.pending_eq (show _ = [0, 1] by decide +kernel)
  have hanswers₁ : x₀.Answers .sink 1 x₁ := .answer .none hpending₀ hmore.2.1
  obtain ⟨s₁, acked₁, h₁, -⟩ := hanswers₁.underway Transport.sink_accepting h₀
  have hpending₁ : x₁.pending = [] ++ a.parcel 0 :: [a.parcel 2] :=
    h₁.pending_eq (show _ = [0, 2] by decide +kernel)
  have hanswers₂ : x₀.Answers .sink 2 x₂ := .answer hanswers₁ hpending₁ hmore.1
  obtain ⟨s₂, acked₂, h₂, -⟩ := hanswers₂.underway Transport.sink_accepting h₀
  have hpending₂ : x₂.pending = [a.parcel 2] :=
    h₂.pending_eq (show _ = [2] by decide +kernel)
  obtain ⟨-, -, hreply₀⟩ := htransfer 0 x₀ .none
  obtain ⟨-, -, hreply₁⟩ := htransfer 1 x₁ hanswers₁
  obtain ⟨-, -, hreply₂⟩ := htransfer 2 x₂ hanswers₂
  have hsilent₀ := (hreply₀ (a.parcel 1) (by rw [hpending₀]; simp)).1 hmore.2.1
  have hsilent₁ := (hreply₁ (a.parcel 0) (by rw [hpending₁]; simp)).1 hmore.1
  obtain ⟨⟨report, hresult, htoken, hblocks, hbytes, hcode⟩, -, htaken, hbody⟩ :=
    (hreply₂ (a.parcel 2) (by rw [hpending₂]; simp)).2 hmore.2.2 .changed (.inl rfl)
  have htotal : a.total = 3 := by decide +kernel
  refine ⟨Transport.sink_accepting, hvalid, hadmitted, hpending₀, hsilent₀, hpending₁, hsilent₁,
    hpending₂, hanswers₂, ⟨report, hresult, htoken, ?_, hbytes, hcode⟩, ?_, hbody⟩
  · rw [hblocks, ← Size.blocksFor_eq_ceilDiv]
    exact htotal
  · rw [htaken, htotal]
    rfl

end Blockwise
