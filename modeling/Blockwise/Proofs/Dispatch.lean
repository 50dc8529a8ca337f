import Blockwise.Proofs.Handing
import Blockwise.Proofs.Outcomes
/-!
# Events that make an engine send

Two events make an engine send blocks: the request for a valid upload that finds the slot
free and the transport ready, and the acknowledgement of a block that waits for an answer
and is not the last.  `History.Due` says so from outside, by the records of a history, and
says from which block on blocks are due then.

**An event comes to what its blocks come to.**  With blocks due, the answer, the slot and
the link are settled by handing them over, up to where the window reaches
(`History.Sound.handle_of_due`).  With none due, the transport is asked at most whether it
is ready (`History.Sound.handle_of_not_due`).
-/

namespace Blockwise

variable {ι σ μ β ε : Type}

/-- How an event reports that a block was not taken: an upload that was asked for fails
bare, and one under way fails as such. -/
def Event.failure (event : Event) (e : DispatchError ε) : UploadError ε :=
  if event.isRequest then .dispatch e else .failed (.dispatch e)

/-- The link on which an event may send: a request that finds the slot free has asked
whether the transport is ready. -/
def Engine.asked (t : Transport σ μ β ε) (event : Event) (e : Engine ι) (link : σ) : σ :=
  if event.isRequest && !e.isActive then (t.ready link).2 else link

/-- With an event, blocks of the admission are due, in a window in which these blocks are
acknowledged, and from this block on.  It depends on whether the transport is ready. -/
inductive History.Due (h : History ι σ) (ready : Bool) :
    Event → Admission → Finset ℕ → (first : ℕ) → Prop
  /-- The first window of a valid upload. -/
  | admission {upload : Upload} (hfree : h.engine.isActive = false) (hready : ready = true)
      (hvalid : (h.engine.admission upload).Valid) :
      Due h ready (.admissionRequested upload) (h.engine.admission upload) ∅ 0
  /-- The blocks for which one more acknowledgement makes room. -/
  | acknowledgement {c : Completion} {r : Record} (hactive : h.engine.isActive = true)
      (hrecord : r ∈ h.records.head?) (hawaits : r.Awaits c)
      (hlast : c.num.toNat + 1 < r.admission.total) :
      Due h ready (.blockAckReceived c) r.admission (insert c.num.toNat r.acked) r.sent.length

/-! ## Through the loop -/

namespace Engine.Enters

variable {t : Transport σ μ β ε} {e : Engine ι} {link : σ} {event : Event} {x : Filling ι σ}

/-- The loop is entered on the link on which an event may send. -/
theorem link_eq (h : Enters t e link event x) : x.link = e.asked t event link := by
  cases h with
  | admission hfree hready hsession =>
    rw [asked, not_isActive_of_session? hfree]
    rfl
  | acknowledgement howner hlast => rfl

/-- What enters the loop comes to what came of it. -/
theorem handle_eq [Inspector ι] (h : Enters t e link event x) :
    let r := handle t event e link
    match (x.fill t).outcome with
    | .ok _ link' =>
      r.result = none ∧ r.engine.slot = .active (x.fill t).session ∧ r.link = link'
    | .error failure link' =>
      r.result = some (.error (event.failure failure)) ∧ r.engine.slot = .failed ∧
        r.link = link' := by
  unfold Filled.outcome
  cases h with
  | admission hfree hready hsession =>
    rw [handle, start_of_ready hfree hready, hsession]
    dsimp only
    cases ((e.opening _ (t.ready link).2).fill t).result <;> exact ⟨rfl, rfl, rfl⟩
  | acknowledgement howner hlast =>
    rw [handle, forOwner, howner]
    dsimp only
    rw [acknowledged_of_not_isLast hlast]
    dsimp only
    cases ((e.advancing _ _ link).fill t).result <;> exact ⟨rfl, rfl, rfl⟩

end Engine.Enters

namespace History.Sound

open Engine

variable {σ' : Type} {h : History ι σ'} {event : Event} {a : Admission} {acked : Finset ℕ}
  {first : ℕ}

/-- An active session is that of the latest record. -/
theorem exists_drives (hs : h.Sound) (hactive : h.engine.isActive = true) {r : Record}
    (hrecord : r ∈ h.records.head?) : ∃ s, h.engine.session? = some s ∧ r.Drives s := by
  obtain ⟨s, hsession⟩ := isActive_iff.1 hactive
  obtain ⟨r', rest, hrecords, hdrives⟩ := hs.drives hsession
  rw [hrecords] at hrecord
  cases hrecord
  exact ⟨s, hsession, hdrives⟩

/-- The first block that is due with an acknowledgement is the next one. -/
theorem first_of_due (hs : h.Sound) {ready : Bool} (hdue : h.Due ready event a acked first)
    (s : Session) (hsession : h.engine.session? = some s) : s.window.next.toNat = first := by
  cases hdue with
  | admission hfree hready hvalid =>
    cases hsession.symm.trans (session?_of_not_isActive hfree)
  | acknowledgement hactive hrecord hawaits hlast =>
    obtain ⟨s', hsession', hdrives⟩ := hs.exists_drives hactive hrecord
    cases hsession.symm.trans hsession'
    rw [hdrives.sent_eq, Admission.length_parcels]

variable {t : Transport σ μ β ε} {link : σ}

/-- An event with blocks due enters the filling loop at the first of them. -/
theorem enters_of_due (hs : h.Sound) (hdue : h.Due (t.ready link).1 event a acked first) :
    ∃ x, Enters t h.engine link event x ∧ a.Runs acked x.session ∧
      x.session.window.next.toNat = first := by
  have hfirst := hs.first_of_due hdue
  cases hdue with
  | @admission upload hfree hready hvalid =>
    have henters : Enters t h.engine link (.admissionRequested upload) _ :=
      .admission (session?_of_not_isActive hfree) hready (sessionOf_eq_ok_iff.2 ⟨hvalid, rfl⟩)
    exact ⟨_, henters, henters.runs_of_admission, rfl⟩
  | @acknowledgement c r hactive hrecord hawaits hlast =>
    obtain ⟨s, hsession, hdrives⟩ := hs.exists_drives hactive hrecord
    have howns : s.Owns c := hdrives.owns_iff.2 hawaits
    have hnot : ¬ s.window.IsLast c.num := by
      rw [Window.isLast_iff (by rw [hdrives.runs.toNat_total]; omega), hdrives.runs.toNat_total]
      omega
    have henters : Enters t h.engine link (.blockAckReceived c) _ :=
      .acknowledgement (owner?_eq_some_iff.2 ⟨hsession, howns⟩) hnot
    exact ⟨_, henters, hdrives.runs.acknowledge howns.2.2 hnot, hfirst s hsession⟩

/-- Only events with blocks due enter the filling loop. -/
theorem due_of_enters (hs : h.Sound) {x : Filling ι σ} (henters : Enters t h.engine link event x) :
    ∃ a acked first, h.Due (t.ready link).1 event a acked first := by
  cases henters with
  | admission hfree hready hsession =>
    exact ⟨_, _, _, .admission (not_isActive_of_session? hfree) hready
      (sessionOf_eq_ok_iff.1 hsession).1⟩
  | @acknowledgement c s howner hlast =>
    obtain ⟨r, rest, hrecords, hdrives, hawaits, -⟩ := hs.exists_latest howner
    have hlt : c.num.toNat < r.admission.total :=
      hawaits.2.2.1.trans_le (hs.cons_sound hrecords).1.1.length_le
    rw [Window.isLast_iff (by rwa [hdrives.runs.toNat_total]), hdrives.runs.toNat_total] at hlast
    refine ⟨_, _, _, .acknowledgement (r := r)
      (isActive_of_session? (owner?_eq_some_iff.1 howner).1) ?_ hawaits (by omega)⟩
    rw [hrecords]
    rfl

/-! ## What events come to -/

variable [Inspector ι] (t link)

/-- With blocks due, an event comes to what comes of handing them over: silence, and a
session that waits, or the failure, and no session. -/
theorem handle_of_due (hs : h.Sound) (hdue : h.Due (t.ready link).1 event a acked first) :
    let r := handle t event h.engine link
    match a.handAll t first (a.reach acked.card - first) (h.engine.asked t event link) with
    | .ok _ link' =>
      r.result = none ∧
        (∃ s, r.engine.slot = .active s ∧ a.Runs acked s ∧ ¬ s.window.CanSend) ∧ r.link = link'
    | .error failure link' =>
      r.result = some (.error (event.failure failure)) ∧ r.engine.slot = .failed ∧
        r.link = link' := by
  obtain ⟨x, henters, hruns, rfl⟩ := hs.enters_of_due hdue
  obtain ⟨hruns', hrests⟩ := Filling.runs_fill (t := t) hruns
  have hhandle := henters.handle_eq
  have houtcome := Filling.outcome_fill t hruns
  rw [henters.link_eq] at houtcome
  rw [← houtcome]
  dsimp only at hhandle ⊢
  unfold Filled.outcome at hhandle ⊢
  cases hresult : (x.fill t).result with
  | ok u =>
    rw [hresult] at hhandle
    obtain ⟨hnone, hslot, hlink⟩ := hhandle
    exact ⟨hnone, ⟨_, hslot, hruns', hrests hresult⟩, hlink⟩
  | error failure =>
    rw [hresult] at hhandle
    exact hhandle

/-- With no blocks due, an event makes no call but to ask whether the transport is ready,
and reports no failure of a call. -/
theorem handle_of_not_due (hs : h.Sound)
    (hnone : ∀ a acked first, ¬ h.Due (t.ready link).1 event a acked first) :
    (handle t event h.engine link).link = h.engine.asked t event link ∧
      ∀ failure, (handle t event h.engine link).result ≠ some (.error (event.failure failure)) := by
  have hcourse := handle_course t event h.engine link
  have hno : ∀ {x}, ¬ Enters t h.engine link event x := by
    intro x henters
    obtain ⟨a, acked, first, hdue⟩ := hs.due_of_enters henters
    exact hnone a acked first hdue
  generalize handle t event h.engine link = r at hcourse ⊢
  cases hcourse with
  | busy hactive =>
    refine ⟨?_, by rintro failure ⟨⟩⟩
    rw [asked, isActive_of_session? hactive]
    rfl
  | disconnected hfree hready =>
    refine ⟨?_, by rintro failure ⟨⟩⟩
    rw [asked, not_isActive_of_session? hfree]
    rfl
  | invalid hfree hready hsession =>
    refine ⟨?_, by rintro failure ⟨⟩⟩
    rw [asked, not_isActive_of_session? hfree]
    rfl
  | admitted henters hfill hresult => exact absurd henters hno
  | aborted henters hfill hresult => exact absurd henters hno
  | idle hfree => exact ⟨rfl, by rintro failure ⟨⟩⟩
  | cancelled hactive => exact ⟨rfl, by rintro failure ⟨⟩⟩
  | ignored hcompletion howner =>
    refine ⟨?_, by rintro failure ⟨⟩⟩
    cases event <;> first | rfl | cases hcompletion
  | overrun howner hlast => exact ⟨rfl, by rintro failure ⟨⟩⟩
  | advanced henters hfill hresult => exact absurd henters hno
  | broken henters hfill hresult => exact absurd henters hno
  | applied howner => exact ⟨rfl, by rintro failure ⟨⟩⟩
  | rejected howner => exact ⟨rfl, by rintro failure ⟨⟩⟩
  | timedOut howner => exact ⟨rfl, by rintro failure ⟨⟩⟩

end History.Sound

end Blockwise
