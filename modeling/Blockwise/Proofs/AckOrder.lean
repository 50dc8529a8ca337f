import Blockwise.Proofs.Stale
/-!
# The order of acknowledgements does not matter

Acknowledgements come in any order, and each is an occasion to send.  On the way
the windows of two runs differ: an early acknowledgement for a late block moves
`highest` far ahead, and an acknowledgement for an early one is what frees the
place of the next block in one run and not in the other.

**Where it comes to is settled.**  A window that rests is full or has nothing left
to send, so its counters follow from the blocks that were acknowledged
(`Window.Tracks.unique`).  And what was sent in between does not show: the blocks
go out in the order of their numbers, so after the first `k` of them inspector and
link are in one state, however the sending was spread over the acknowledgements
(`Admission.Trail.unique`).

* `Admission.Stands` — a session, an inspector and a link that blocks were sent on
* `History.Quiet` — operations that acknowledge blocks, or change nothing
* `History.Poised` — what a session comes to by them
* `ack_order_independent` — the same blocks lead to the same state
-/

namespace Blockwise

variable {ι σ μ β ε : Type}

/-! ## Windows that rest -/

namespace Window

variable {w w' : Window} {acked : Finset ℕ}

/-- Every block that is out was sent once. -/
def Once (w : Window) : Prop :=
  ∀ (num : UInt32) (attempts : Attempts), w.inFlight[num]? = some attempts → attempts = .first

theorem Once.getElem?_eq (h : w.Once) {num : UInt32} (hout : num ∈ w.inFlight) :
    w.inFlight[num]? = some .first := by
  rw [Std.ExtTreeMap.getElem?_eq_some_getElem hout,
    h num _ (Std.ExtTreeMap.getElem?_eq_some_getElem hout)]

theorem Once.dispatch (h : w.Once) : w.dispatch.Once := by
  intro num attempts hnum
  unfold Window.dispatch at hnum
  rw [Std.ExtTreeMap.getElem?_insert] at hnum
  split at hnum
  · exact (Option.some.inj hnum).symm
  · exact h num attempts hnum

theorem Once.acknowledge (h : w.Once) (num : UInt32) : (w.acknowledge num).Once := by
  intro num' attempts hnum
  unfold Window.acknowledge settle at hnum
  rw [Std.ExtTreeMap.getElem?_erase] at hnum
  split at hnum
  · cases hnum
  · exact h num' attempts hnum

/-- A window that rests is settled by the blocks that were acknowledged. -/
theorem Tracks.unique (h : w.Tracks acked) (h' : w'.Tracks acked) (htotal : w.total = w'.total)
    (hlimit : w.limit = w'.limit) (hrest : ¬ w.CanSend) (hrest' : ¬ w'.CanSend) (honce : w.Once)
    (honce' : w'.Once) : w = w' := by
  have hnext : w.next = w'.next := by
    rw [← UInt32.toNat_inj, h.next_eq_of_not_canSend hrest, h'.next_eq_of_not_canSend hrest',
      htotal, hlimit]
  have hhighest : w.highest = w'.highest := by
    rw [← UInt32.toNat_inj, h.highest_eq, h'.highest_eq]
  have hinFlight : w.inFlight = w'.inFlight := by
    have hmem : ∀ num, num ∈ w.inFlight ↔ num ∈ w'.inFlight := by
      intro num
      rw [h.mem_inFlight_iff, h'.mem_inFlight_iff, hnext]
    refine Std.ExtTreeMap.ext_getElem? fun num => ?_
    by_cases hout : num ∈ w.inFlight
    · rw [honce.getElem?_eq hout, honce'.getElem?_eq ((hmem num).1 hout)]
    · rw [Std.ExtTreeMap.getElem?_eq_none hout,
        Std.ExtTreeMap.getElem?_eq_none (mt (hmem num).2 hout)]
  cases w
  cases w'
  congr

end Window

/-! ## Sessions, and what they were sent on -/

namespace Admission

variable [Inspector ι]

/-- The states of inspector and link after the first `k` blocks were sent, one
after the other, where inspector and link had been `i₀` and `l₀`. -/
inductive Trail (t : Transport σ μ β ε) (a : Admission) (i₀ : ι) (l₀ : σ) : ℕ → ι → σ → Prop
  | none : Trail t a i₀ l₀ 0 i₀ l₀
  | sent {k : ℕ} {i : ι} {l l' : σ} {b : Block} (h : Trail t a i₀ l₀ k i l)
      (hblock : Block.cut? a.upload.body a.size (UInt32.ofNat k) = some b)
      (hdeliver : (a.session a.window).deliver t b l = .ok () l') :
      Trail t a i₀ l₀ (k + 1) (Inspector.observe b.digest i) l'

variable {t : Transport σ μ β ε} {a : Admission} {i₀ i i' : ι} {l₀ l l' : σ} {k : ℕ}

/-- After as many blocks, inspector and link are in the same state. -/
theorem Trail.unique (h : a.Trail t i₀ l₀ k i l) (h' : a.Trail t i₀ l₀ k i' l') :
    i = i' ∧ l = l' := by
  induction h generalizing i' l' with
  | none =>
    cases h'
    exact ⟨rfl, rfl⟩
  | sent _ hblock hdeliver ih =>
    cases h' with
    | sent h' hblock' hdeliver' =>
      obtain ⟨rfl, rfl⟩ := ih h'
      cases hblock.symm.trans hblock'
      cases hdeliver.symm.trans hdeliver'
      exact ⟨rfl, rfl⟩

/-- The session `s` is of this admission, the blocks in `acked`, and no others, were
acknowledged, and sending what was sent has left inspector and link as `i` and
`l`. -/
structure Stands (t : Transport σ μ β ε) (a : Admission) (i₀ : ι) (l₀ : σ) (acked : Finset ℕ)
    (s : Session) (i : ι) (l : σ) : Prop where
  runs : a.Runs acked s
  once : s.window.Once
  trail : a.Trail t i₀ l₀ s.window.next.toNat i l

variable {acked : Finset ℕ} {s s' : Session} {num : UInt32}

omit [Inspector ι] in
/-- The last block is never acknowledged in favour of a further one. -/
theorem Runs.last_not_mem_acked (h : a.Runs acked s) : a.total - 1 ∉ acked := by
  intro hmem
  have hlt := h.tracks.not_last _ hmem
  have hpos := h.valid.total_pos
  rw [h.toNat_total] at hlt
  omega

theorem Stands.unique (h : a.Stands t i₀ l₀ acked s i l) (h' : a.Stands t i₀ l₀ acked s' i' l')
    (hrest : ¬ s.window.CanSend) (hrest' : ¬ s'.window.CanSend) : s = s' ∧ i = i' ∧ l = l' := by
  have hwindow : s.window = s'.window := by
    refine h.runs.tracks.unique h'.runs.tracks ?_ ?_ hrest hrest' h.once h'.once
    · rw [h.runs.total_eq, h'.runs.total_eq]
    · rw [h.runs.limit_eq, h'.runs.limit_eq]
  refine ⟨?_, h.trail.unique ?_⟩
  · rw [h.runs.session_eq, h'.runs.session_eq, hwindow]
  · rw [hwindow]
    exact h'.trail

theorem Stands.acknowledge (h : a.Stands t i₀ l₀ acked s i l) (hmem : num ∈ s.window.inFlight)
    (hlast : ¬ s.window.IsLast num) :
    a.Stands t i₀ l₀ (insert num.toNat acked) { s with window := s.window.acknowledge num }
      i l where
  runs := h.runs.acknowledge hmem hlast
  once := h.once.acknowledge num
  trail := h.trail

end Admission

namespace Filling

variable [Inspector ι] {t : Transport σ μ β ε} {a : Admission} {i₀ : ι} {l₀ : σ}
  {acked : Finset ℕ}

theorem Round.stands {x y : Filling ι σ} (h : Round t x y)
    (hx : a.Stands t i₀ l₀ acked x.session x.inspector x.link) :
    a.Stands t i₀ l₀ acked y.session y.inspector y.link := by
  have hruns := h.runs hx.runs
  obtain ⟨hsend, hblock, hdeliver⟩ := h
  have hnext : x.session.window.dispatch.next.toNat = x.session.window.next.toNat + 1 :=
    Window.toNat_next_add_one hsend
  rw [hx.runs.block?_eq] at hblock
  rw [hx.runs.session_eq] at hdeliver
  refine ⟨hruns, hx.once.dispatch, ?_⟩
  show a.Trail t i₀ l₀ x.session.window.dispatch.next.toNat _ _
  rw [hnext]
  refine .sent hx.trail ?_ hdeliver
  rw [UInt32.ofNat_toNat]
  exact hblock

/-- Where the loop ends well, the session rests. -/
theorem stands_fill {x : Filling ι σ} (hx : a.Stands t i₀ l₀ acked x.session x.inspector x.link)
    (hresult : (x.fill t).result = .ok ()) :
    a.Stands t i₀ l₀ acked (x.fill t).session (x.fill t).inspector (x.fill t).link ∧
      ¬ (x.fill t).session.window.CanSend := by
  obtain ⟨y, hrounds, hstops⟩ := exists_stops t x
  have hy := hrounds.invariant
    (P := fun y => a.Stands t i₀ l₀ acked y.session y.inspector y.link) hx
    fun hx hround => hround.stands hx
  rw [hstops.eq_of_ok hresult]
  exact ⟨hy, hstops.not_canSend hy.runs hresult⟩

end Filling

/-! ## Quiet operations -/

namespace History

open Engine

variable [Inspector ι] {t : Transport σ μ β ε} {a : Admission} {base : Engine ι}
  {l₀ : Ledgered σ} {h h' : History ι σ} {op : Operation} {c : Completion}

/-- The operations report nothing but completions that the engine ignores, and
acknowledgements, at which every block that is handed over is taken. -/
inductive Quiet (t : Transport σ μ β ε) : History ι σ → List Operation → Prop
  | nil {h : History ι σ} : Quiet t h []
  | ignored {h : History ι σ} {op : Operation} {ops : List Operation} {c : Completion}
      (hcompletion : op.event.completion? = some c) (howner : h.engine.owner? c = none)
      (hquiet : Quiet t (h.step t op) ops) : Quiet t h (op :: ops)
  | acknowledged {h : History ι σ} {op : Operation} {ops : List Operation} {c : Completion}
      (hevent : op.event = .blockAckReceived c)
      (htaken : ∀ failure, (perform t op h.engine h.link.link).result ≠
        .outcome (some (.error (.failed (.dispatch failure)))))
      (hquiet : Quiet t (h.step t op) ops) : Quiet t h (op :: ops)

/-- What a session of the admission comes to by quiet operations, where the engine
was `base` and the link `l₀` when it began to send.  It waits, unless the server
wanted more after the last block. -/
inductive Poised (t : Transport σ μ β ε) (a : Admission) (base : Engine ι) (l₀ : Ledgered σ) :
    History ι σ → Prop
  | intro {i : ι} {l : Ledgered σ} {s : Session} {r : Record} {rest : List Record}
      (hstands : a.Stands t.ledgered base.inspector l₀ (r.acked.erase (a.total - 1)) s i l)
      (hrest : ¬ s.window.CanSend) :
      Poised t a base l₀
        { engine := { base with
            inspector := i
            slot := if a.total - 1 ∈ r.acked then .failed else .active s }
          link := l
          records := r :: rest }

/-- Where the same blocks are acknowledged, engine and link are the same. -/
theorem Poised.unique (hp : h.Poised t a base l₀) (hp' : h'.Poised t a base l₀)
    (hacked : h.records.head?.map Record.acked = h'.records.head?.map Record.acked) :
    h.engine = h'.engine ∧ h.link = h'.link := by
  obtain @⟨i, l, s, r, rest, hstands, hrest⟩ := hp
  obtain @⟨i', l', s', r', rest', hstands', hrest'⟩ := hp'
  have hsame : r.acked = r'.acked := Option.some.inj hacked
  rw [hsame] at hstands
  obtain ⟨rfl, rfl, rfl⟩ := hstands.unique hstands' hrest hrest'
  dsimp only
  rw [hsame]
  exact ⟨rfl, rfl⟩

/-- A session that waits is poised. -/
theorem Poised.active {i : ι} {l : Ledgered σ} {s : Session} {r : Record} {rest : List Record}
    (hstands : a.Stands t.ledgered base.inspector l₀ r.acked s i l)
    (hrest : ¬ s.window.CanSend) :
    Poised t a base l₀ ⟨{ base with inspector := i, slot := .active s }, l, r :: rest⟩ := by
  have hlast := hstands.runs.last_not_mem_acked
  have hpoised : Poised t a base l₀ ⟨{ base with
      inspector := i
      slot := if a.total - 1 ∈ r.acked then .failed else .active s }, l, r :: rest⟩ :=
    .intro (by rwa [Finset.erase_eq_of_notMem hlast]) hrest
  rwa [if_neg hlast] at hpoised

/-- A session that ended as the server wanted more after the last block is poised. -/
theorem Poised.overrun {i : ι} {l : Ledgered σ} {s : Session} {acked : Finset ℕ} {r : Record}
    {rest : List Record} (hstands : a.Stands t.ledgered base.inspector l₀ acked s i l)
    (hrest : ¬ s.window.CanSend) (hacked : r.acked = insert (a.total - 1) acked) :
    Poised t a base l₀ ⟨{ base with inspector := i, slot := .failed }, l, r :: rest⟩ := by
  have hlast := hstands.runs.last_not_mem_acked
  have hpoised : Poised t a base l₀ ⟨{ base with
      inspector := i
      slot := if a.total - 1 ∈ r.acked then .failed else .active s }, l, r :: rest⟩ :=
    .intro (by rwa [hacked, Finset.erase_insert hlast]) hrest
  rwa [if_pos (hacked ▸ Finset.mem_insert_self _ _)] at hpoised

/-- As long as the session owns a completion it waits, the engine differs from what it
was only in the session and the inspector, and an acknowledgement is noted. -/
theorem Poised.of_owner (hp : h.Poised t a base l₀) (hs : h.Sound) {s : Session}
    (howner : h.engine.owner? c = some s) :
    ∃ (r : Record) (rest : List Record), ¬ s.window.CanSend ∧
      a.Stands t.ledgered base.inspector l₀ r.acked s h.engine.inspector h.link ∧
      (∀ (i : ι) (slot : Slot),
        { h.engine with inspector := i, slot } = { base with inspector := i, slot }) ∧
      ∀ refused news, h.noted (.blockAckReceived c) refused news =
        { r with sent := r.sent ++ news, acked := insert c.num.toNat r.acked } :: rest := by
  obtain ⟨r, rest, hrecords, -, -, hnoted⟩ := hs.exists_latest howner
  have hactive := (owner?_eq_some_iff.1 howner).1
  obtain @⟨i, l, s', r', rest', hstands, hrest⟩ := hp
  cases hrecords
  by_cases hlast : a.total - 1 ∈ r.acked
  · rw [Engine.session?, if_pos hlast] at hactive
    cases hactive
  · rw [Engine.session?, if_neg hlast] at hactive
    obtain rfl := Option.some.inj hactive
    rw [Finset.erase_eq_of_notMem hlast] at hstands
    exact ⟨r, rest, hrest, hstands, fun _ _ => rfl, hnoted⟩

/-- An upload that is admitted is poised once its first window is sent. -/
theorem exists_poised (hadmits : (perform t op h.engine h.link.link).result.admits op = true) :
    ∃ a base l₀, (h.step t op).Poised t a base l₀ := by
  rw [result_eq] at hadmits
  obtain ⟨upload, hevent, herror⟩ := Operation.exists_upload_of_admits hadmits
  rw [step_eq, hevent]
  rw [hevent] at herror
  have hcourse := handle_course t.ledgered (.admissionRequested upload) h.engine h.link
  unfold History.handled
  generalize handle t.ledgered (.admissionRequested upload) h.engine h.link = r at hcourse herror ⊢
  cases hcourse with
  | busy => exact absurd rfl (herror _)
  | disconnected => exact absurd rfl (herror _)
  | invalid => exact absurd rfl (herror _)
  | admitted henters hfill hresult =>
    subst hfill
    cases henters with
    | admission hfree hready hsession =>
      obtain ⟨hvalid, rfl⟩ := sessionOf_eq_ok_iff.1 hsession
      have honce : (h.engine.admission upload).window.Once := by
        intro num attempts hnum
        cases Std.ExtTreeMap.getElem?_empty.symm.trans hnum
      have hbegun : (h.engine.admission upload).Stands t.ledgered h.engine.inspector
          (t.ledgered.ready h.link).2 ∅ ((h.engine.admission upload).session _)
          h.engine.inspector (t.ledgered.ready h.link).2 := ⟨.fresh hvalid, honce, .none⟩
      obtain ⟨hstands, hrest⟩ := Filling.stands_fill (x := h.engine.opening _ _) hbegun hresult
      exact ⟨h.engine.admission upload, h.engine.opened, _, .active hstands hrest⟩
  | aborted => exact absurd rfl (herror _)
  | ignored hcompletion => cases hcompletion

/-- After an acknowledgement, at which every block that was handed over was taken,
the session is poised again. -/
theorem Poised.acknowledge (hp : h.Poised t a base l₀) (hs : h.Sound)
    (hevent : op.event = .blockAckReceived c)
    (htaken : ∀ failure, (perform t op h.engine h.link.link).result ≠
      .outcome (some (.error (.failed (.dispatch failure))))) :
    (h.step t op).Poised t a base l₀ := by
  have hrequest : op.event.isRequest = false := by rw [hevent]; rfl
  rw [result_eq, Operation.answer_of_not_request hrequest, hevent] at htaken
  rw [step_eq, hevent]
  have hcourse := handle_course t.ledgered (.blockAckReceived c) h.engine h.link
  unfold History.handled
  generalize handle t.ledgered (.blockAckReceived c) h.engine h.link = reaction
    at hcourse htaken ⊢
  cases hcourse with
  | ignored hcompletion howner =>
    dsimp only
    rw [hs.noted_of_owner?_none hcompletion howner]
    exact hp
  | overrun howner hlast =>
    obtain ⟨r, rest, hrest, hstands, hengine, hnoted⟩ := hp.of_owner hs howner
    have howns := (owner?_eq_some_iff.1 howner).2
    have hlt := (hstands.runs.tracks.mem_inFlight_iff.1 howns.2.2).1
    have hnum : c.num.toNat = a.total - 1 := by
      rw [Window.isLast_iff (hlt.trans_le hstands.runs.tracks.next_le),
        hstands.runs.toNat_total] at hlast
      omega
    unfold fail
    dsimp only
    rw [hnoted, hengine h.engine.inspector]
    exact .overrun hstands hrest (by rw [hnum])
  | advanced henters hfill hresult =>
    subst hfill
    cases henters with
    | acknowledgement howner hlast =>
      obtain ⟨r, rest, -, hstands, hengine, hnoted⟩ := hp.of_owner hs howner
      have howns := (owner?_eq_some_iff.1 howner).2
      obtain ⟨hstands', hrest'⟩ :=
        Filling.stands_fill (hstands.acknowledge howns.2.2 hlast) hresult
      dsimp only
      rw [hnoted, hengine]
      exact .active hstands' hrest'
  | broken => exact absurd rfl (htaken _)

/-- By quiet operations a session stays poised. -/
theorem Quiet.poised {ops : List Operation} (hquiet : h.Quiet t ops) (hs : h.Sound)
    (hp : h.Poised t a base l₀) : (h.run t ops).Poised t a base l₀ := by
  induction hquiet with
  | nil => exact hp
  | ignored hcompletion howner _ ih =>
    refine ih (hs.step _) ?_
    rw [hs.step_of_owner?_none hcompletion howner]
    exact hp
  | acknowledged hevent htaken _ ih => exact ih (hs.step _) (hp.acknowledge hs hevent htaken)

/-- On a transport that accepts everything, all reports that blocks were acknowledged
are quiet. -/
theorem quiet_of_accepting (ht : t.Accepting) {ops : List Operation}
    (hacks : ∀ op ∈ ops, ∃ c, op.event = .blockAckReceived c) (h : History ι σ) :
    h.Quiet t ops := by
  induction ops generalizing h with
  | nil => exact .nil
  | cons op ops ih =>
    obtain ⟨⟨c, hevent⟩, hacks⟩ := List.forall_mem_cons.1 hacks
    refine .acknowledged hevent (fun failure hresult => ?_) (ih hacks _)
    have hrequest : op.event.isRequest = false := by rw [hevent]; rfl
    rw [result_eq, Operation.answer_of_not_request hrequest, hevent] at hresult
    have hcourse := handle_course t.ledgered (.blockAckReceived c) h.engine h.link
    generalize handle t.ledgered (.blockAckReceived c) h.engine h.link = reaction
      at hcourse hresult
    cases hcourse with
    | ignored => cases hresult
    | overrun => cases hresult
    | advanced => cases hresult
    | broken henters hfill hbroken =>
      subst hfill
      cases (ht.ledgered.result_fill _).symm.trans hbroken

end History

/-- **A work-conserving window, and acknowledgements in any order.**  In every state
between two operations in which a session is active, and `k` of its blocks were
acknowledged, it has sent as many blocks as the window and the body allow, those
that are out are those that were sent and not acknowledged, `highest` is one past
the greatest that was acknowledged, and no block may be sent.

Consequently, if after an admission the same blocks are acknowledged in two orders,
with ignored completions in between, and all blocks that are handed over are taken,
then the engine is the same, and so is the link with the messages that it took, and
whatever happens next has the same results. -/
theorem ack_order_independent [Inspector ι] (t : Transport σ μ β ε) (stream : WordStream)
    (config : Config) (inspector : ι) (link : σ) (ops : List Operation) :
    let fresh := Engine.ofStream stream config inspector
    let state := Engine.after t ops fresh link
    let h := (History.ofEngine fresh link).run t ops
    (∀ s, state.1.session? = some s →
      ∃ r ∈ h.records.head?, s = r.admission.session s.window ∧
        s.window.next.toNat = min s.window.total.toNat (s.window.limit.toNat + r.acked.card) ∧
        (∀ num : UInt32, num ∈ s.window.inFlight ↔
          num.toNat < s.window.next.toNat ∧ num.toNat ∉ r.acked) ∧
        s.window.highest.toNat = r.acked.sup (· + 1) ∧
        ¬ s.window.CanSend) ∧
    ∀ op, (Engine.perform t op state.1 state.2).result.admits op = true →
      let begun := h.step t op
      ∀ acks acks', begun.Quiet t acks → begun.Quiet t acks' →
        let x := begun.run t acks
        let x' := begun.run t acks'
        x.records.head?.map Record.acked = x'.records.head?.map Record.acked →
        x.engine = x'.engine ∧ x.link = x'.link ∧
          ∀ more, Engine.run t more x.engine x.link.link =
            Engine.run t more x'.engine x'.link.link := by
  intro fresh state h
  have hs : h.Sound := (History.Sound.ofEngine rfl).run ops
  have hstate : (h.engine, h.link.link) = state := History.run_engine t ops _
  rw [← hstate]
  constructor
  · intro s hactive
    obtain ⟨r, rest, hrecords, hdrives⟩ := hs.drives hactive
    have htracks := hdrives.runs.tracks
    rw [hrecords]
    exact ⟨r, rfl, hdrives.runs.session_eq, htracks.next_eq_of_not_canSend hdrives.rests,
      fun _ => htracks.mem_inFlight_iff, htracks.highest_eq, hdrives.rests⟩
  · intro op hadmits begun acks acks' hquiet hquiet' x x' hacked
    obtain ⟨a, base, l₀, hp⟩ := History.exists_poised hadmits
    have hbegun : begun.Sound := hs.step op
    obtain ⟨hengine, hlink⟩ :=
      (hquiet.poised hbegun hp).unique (hquiet'.poised hbegun hp) hacked
    refine ⟨hengine, hlink, fun more => ?_⟩
    rw [hengine, hlink]

/-- The first two blocks of the sample are acknowledged in both orders. -/
theorem ack_order_independent_sample :
    let fresh := Engine.new default ()
    let a := fresh.admission .sample
    let begun := (History.ofEngine fresh ()).step .sink (.start .sample)
    let first := Operation.handle (.blockAckReceived (a.completion 0))
    let second := Operation.handle (.blockAckReceived (a.completion 1))
    let x := begun.run .sink [first, second]
    let x' := begun.run .sink [second, first]
    (Engine.perform .sink (.start .sample) fresh ()).result.admits (.start .sample) = true ∧
      begun.Quiet .sink [first, second] ∧ begun.Quiet .sink [second, first] ∧
      x.records.head?.map Record.acked = some {0, 1} ∧
      x.engine = x'.engine ∧ x.link = x'.link := by
  intro fresh a begun first second x x'
  have hadmits : (Engine.perform .sink (.start .sample) fresh ()).result.admits (.start .sample) =
      true := by decide +kernel
  have hquiet : ∀ c c', begun.Quiet .sink
      [.handle (.blockAckReceived c), .handle (.blockAckReceived c')] := by
    intro c c'
    refine History.quiet_of_accepting Transport.sink_accepting ?_ begun
    rintro op (_ | ⟨_, _ | ⟨_, ⟨⟩⟩⟩)
    · exact ⟨c, rfl⟩
    · exact ⟨c', rfl⟩
  have hacked : x.records.head?.map Record.acked = some {0, 1} := by decide +kernel
  have hacked' : x'.records.head?.map Record.acked = some {0, 1} := by decide +kernel
  obtain ⟨hengine, hlink, -⟩ :=
    (ack_order_independent .sink (.ofSeed 0) default () () []).2 (.start .sample) hadmits
      [first, second] [second, first] (hquiet _ _) (hquiet _ _) (hacked.trans hacked'.symm)
  exact ⟨hadmits, hquiet _ _, hquiet _ _, hacked, hengine, hlink⟩

end Blockwise
