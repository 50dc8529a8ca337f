import Blockwise.Proofs.Reasons
/-!
# What the end of an exchange comes to

When the exchange of a block ends that waits for an answer, what is answered is settled by
the status, the place of the block in the body, and the transport (`Record.answer`).  All
of it is known from the record of the session.

**An answer ends the session, and silence is an acknowledgement** (`completion_answered`).
Where there is an answer, the slot is free for the next upload.  Where there is none, the
session goes on, and the block is no longer out; of the others that were out, all still
are.
-/

namespace Blockwise

variable {ι σ μ β ε : Type}

/-- What it comes to that the exchange of a block that waits for an answer ended with this
status. -/
def Record.answer (r : Record) (t : Transport σ μ β ε) (c : Completion) (link : σ) :
    (status : Option Code) → Option (Outcome ε)
  | none => some (.error (.failed .timeout))
  | some code =>
    if code = .changed ∨ code = .created then
      some (.ok
        { token := r.admission.token
          blocks := UInt32.ofNat r.admission.total
          bytes := r.admission.upload.body.size
          code })
    else if code = .continued ∧ c.num.toNat + 1 < r.admission.total then
      match r.admission.handAll t r.sent.length
        (r.admission.reach (r.acked.card + 1) - r.sent.length) link with
      | .ok _ _ => none
      | .error failure _ => some (.error (.failed (.dispatch failure)))
    else
      some (.error (.failed (.remoteRejected code)))

/-- The session `s'` is `s` after block `num`, which was out, was acknowledged: all other
blocks that were out still are, and so are those that were sent since.  The counter of the
highest acknowledged block is moved past this one, if it is not there yet. -/
structure Session.Settles (s : Session) (num : UInt32) (s' : Session) : Prop where
  session_eq : s' = { s with window := s'.window }
  total_eq : s'.window.total = s.window.total
  limit_eq : s'.window.limit = s.window.limit
  next_le : s.window.next.toNat ≤ s'.window.next.toNat
  highest_eq : s'.window.highest = max s.window.highest (num + 1)
  mem_inFlight : num ∈ s.window.inFlight
  mem_inFlight_iff : ∀ {i : UInt32}, i ∈ s'.window.inFlight ↔
    (i ≠ num ∧ i ∈ s.window.inFlight) ∨
      s.window.next.toNat ≤ i.toNat ∧ i.toNat < s'.window.next.toNat

/-- Two sessions of an admission that differ by one acknowledgement. -/
theorem Admission.Runs.settles {a : Admission} {acked : Finset ℕ} {s s' : Session} {num : UInt32}
    (h : a.Runs acked s) (hmem : num ∈ s.window.inFlight)
    (h' : a.Runs (insert num.toNat acked) s') (hnext : s.window.next.toNat ≤ s'.window.next.toNat) :
    s.Settles num s' where
  session_eq := by
    rw [h'.session_eq, h.session_eq]
    rfl
  total_eq := h'.total_eq.trans h.total_eq.symm
  limit_eq := h'.limit_eq.trans h.limit_eq.symm
  next_le := hnext
  highest_eq := by
    have hlt := (h.tracks.mem_inFlight_iff.1 hmem).1.trans_le h.tracks.next_le
    refine UInt32.toNat_inj.1 ?_
    rw [Window.toNat_max, Window.toNat_add_one_of_lt hlt, h'.tracks.highest_eq,
      h.tracks.highest_eq, Finset.sup_insert, max_comm]
  mem_inFlight := hmem
  mem_inFlight_iff := by
    intro i
    rw [h'.tracks.mem_inFlight_iff, h.tracks.mem_inFlight_iff, Finset.mem_insert, not_or,
      ne_eq, ← UInt32.toNat_inj]
    have hnum := (h.tracks.mem_inFlight_iff.1 hmem).1
    have hlt := h.tracks.lt_next i.toNat
    constructor
    · rintro ⟨hi, hne, hack⟩
      rcases Nat.lt_or_ge i.toNat s.window.next.toNat with hold | hnew
      · exact .inl ⟨hne, hold, hack⟩
      · exact .inr ⟨hnew, hi⟩
    · rintro (⟨hne, hold, hack⟩ | ⟨hnew, hi⟩)
      · exact ⟨hold.trans_le hnext, hne, hack⟩
      · refine ⟨hi, ?_, fun hack => ?_⟩
        · omega
        · exact absurd (hlt hack) (Nat.not_lt.2 hnew)

namespace Engine

variable [Inspector ι] {t : Transport σ μ β ε} {e : Engine ι} {c : Completion} {s : Session}
  {link : σ}

theorem complete_none (howner : e.owner? c = some s) :
    complete t c none e link = timedOut s c.num e link := by
  rw [complete, Event.completed, handle, forOwner, howner]

theorem complete_of_applied {code : Code} (howner : e.owner? c = some s)
    (hcode : code.verdict = .applied) :
    complete t c (some code) e link = applied s c.num code e link := by
  rw [complete, Event.completed, hcode, handle, forOwner, howner]

theorem complete_of_rejected {code : Code} (howner : e.owner? c = some s)
    (hcode : code.verdict = .rejected) :
    complete t c (some code) e link = rejected s c.num code e link := by
  rw [complete, Event.completed, hcode, handle, forOwner, howner]

theorem complete_continued_of_isLast (howner : e.owner? c = some s)
    (hlast : s.window.IsLast c.num) :
    complete t c (some .continued) e link =
      fail (.remoteRejected .continued) e link #[.continuedAfterLast] := by
  rw [complete, Event.completed, Code.verdict_eq_continued_iff.2 rfl, handle, forOwner, howner]
  dsimp only
  rw [acknowledged, if_pos hlast]

/-- A valid upload that finds the slot free is admitted by an accepting transport. -/
theorem start_of_accepting {upload : Upload} (ht : t.Accepting) (hfree : e.session? = none)
    (hvalid : (e.admission upload).Valid) : (start t upload e link).result = .ok () := by
  obtain ⟨x, -, hhandle⟩ := handle_request_of_accepting ht hfree hvalid link
  rw [result_start, hhandle]

end Engine

/-! ## What is answered -/

namespace History.Sound

open Engine

variable {σ' : Type} {h : History ι σ'} {r : Record} {c : Completion}

/-- A completion that the latest record awaits is owned by the active session. -/
theorem exists_owner (hs : h.Sound) (hactive : h.engine.isActive = true)
    (hrecord : r ∈ h.records.head?) (hawaits : r.Awaits c) :
    ∃ s, h.engine.owner? c = some s ∧ r.Drives s := by
  obtain ⟨s, hsession, hdrives⟩ := hs.exists_drives hactive hrecord
  exact ⟨s, owner?_eq_some_iff.2 ⟨hsession, hdrives.owns_iff.2 hawaits⟩, hdrives⟩

variable [Inspector ι]

/-- An acknowledgement of a block with further ones after it is answered as these are
taken, and otherwise with silence. -/
theorem complete_continued (hs : h.Sound) (hactive : h.engine.isActive = true)
    (hrecord : r ∈ h.records.head?) (hawaits : r.Awaits c)
    (hlast : c.num.toNat + 1 < r.admission.total) (t : Transport σ μ β ε) (link : σ) :
    let x := complete t c (some .continued) h.engine link
    x.result = r.answer t c link (some .continued) ∧
      (x.result.isSome → x.engine.session? = none) ∧
      (x.result = none → ∃ s', x.engine.session? = some s' ∧
        r.admission.Runs (insert c.num.toNat r.acked) s' ∧ ¬ s'.window.CanSend) := by
  intro x
  have hdue : h.Due (t.ready link).1 (.blockAckReceived c) r.admission
      (insert c.num.toNat r.acked) r.sent.length := .acknowledgement hactive hrecord hawaits hlast
  have hhandle := hs.handle_of_due t link hdue
  rw [Finset.card_insert_of_notMem hawaits.2.2.2] at hhandle
  rw [Record.answer, if_neg (by decide), if_pos ⟨rfl, hlast⟩]
  -- The status of an acknowledgement is the event of one.
  change match r.admission.handAll t r.sent.length _ link with
    | .ok _ link' => x.result = none ∧ (∃ s', x.engine.slot = .active s' ∧ _) ∧ x.link = link'
    | .error failure link' => x.result = some (.error (.failed (.dispatch failure))) ∧
        x.engine.slot = .failed ∧ x.link = link' at hhandle
  generalize r.admission.handAll t r.sent.length
    (r.admission.reach (r.acked.card + 1) - r.sent.length) link = handed at hhandle ⊢
  cases handed with
  | ok u link' =>
    obtain ⟨hresult, ⟨s', hslot, hruns⟩, -⟩ := hhandle
    rw [hresult]
    exact ⟨rfl, by rintro ⟨⟩, fun _ => ⟨s', congrArg Slot.session? hslot, hruns⟩⟩
  | error failure link' =>
    obtain ⟨hresult, hslot, -⟩ := hhandle
    rw [hresult]
    exact ⟨rfl, fun _ => congrArg Slot.session? hslot, by rintro ⟨⟩⟩

/-- What is awaited is answered as the record says; an answer leaves no session behind. -/
theorem complete_awaited (hs : h.Sound) (hactive : h.engine.isActive = true)
    (hrecord : r ∈ h.records.head?) (hawaits : r.Awaits c) (t : Transport σ μ β ε)
    (status : Option Code) (link : σ) :
    let x := complete t c status h.engine link
    x.result = r.answer t c link status ∧
      (x.result.isSome → x.engine.session? = none) ∧
      (x.result = none → ∃ s', x.engine.session? = some s' ∧
        r.admission.Runs (insert c.num.toNat r.acked) s' ∧ ¬ s'.window.CanSend) := by
  intro x
  obtain ⟨s, howner, hdrives⟩ := hs.exists_owner hactive hrecord hawaits
  cases status with
  | none =>
    have hx : x = timedOut s c.num h.engine link := complete_none howner
    rw [hx]
    exact ⟨rfl, fun _ => rfl, by rintro ⟨⟩⟩
  | some code =>
    cases hverdict : code.verdict with
    | applied =>
      have hx : x = applied s c.num code h.engine link := complete_of_applied howner hverdict
      rw [hx, Record.answer, if_pos (Code.verdict_eq_applied_iff.1 hverdict)]
      refine ⟨?_, fun _ => rfl, by rintro ⟨⟩⟩
      rw [applied, hdrives.runs.total_eq, hdrives.runs.session_eq]
      rfl
    | rejected =>
      have hx : x = rejected s c.num code h.engine link := complete_of_rejected howner hverdict
      have happlied : ¬ (code = .changed ∨ code = .created) := by
        rw [← Code.verdict_eq_applied_iff, hverdict]
        rintro ⟨⟩
      have hcontinued : code ≠ .continued := by
        rw [ne_eq, ← Code.verdict_eq_continued_iff, hverdict]
        rintro ⟨⟩
      rw [hx, Record.answer, if_neg happlied, if_neg fun hgo => hcontinued hgo.1]
      exact ⟨rfl, fun _ => rfl, by rintro ⟨⟩⟩
    | continued =>
      obtain rfl := Code.verdict_eq_continued_iff.1 hverdict
      by_cases hlast : c.num.toNat + 1 < r.admission.total
      · exact hs.complete_continued hactive hrecord hawaits hlast t link
      · have hisLast : s.window.IsLast c.num := by
          have hlt := hawaits.2.2.1.trans_le
            (hs.record_sound r (List.mem_of_mem_head? hrecord)).1.length_le
          rw [Window.isLast_iff (by rwa [hdrives.runs.toNat_total]), hdrives.runs.toNat_total]
          omega
        have hx : x = fail (.remoteRejected .continued) h.engine link #[.continuedAfterLast] :=
          complete_continued_of_isLast howner hisLast
        rw [hx, Record.answer, if_neg (by decide), if_neg fun hgo => hlast hgo.2]
        exact ⟨rfl, fun _ => rfl, by rintro ⟨⟩⟩

end History.Sound

/-- **What the end of an exchange comes to.**  After any run of a fresh engine, on any
transport and link, let a session be active that awaits the completion.  It is answered as
`Record.answer` says, whatever the status.  Where there is an answer the session is gone,
and the next valid upload is admitted by any transport that accepts everything.  Where there
is none the session goes on, and the block, and no other, was moved from those that are out
to those that were acknowledged. -/
theorem completion_answered [Inspector ι] {σ₀ μ₀ β₀ ε₀ : Type} (t₀ : Transport σ₀ μ₀ β₀ ε₀)
    (stream : WordStream) (config : Config) (inspector : ι) (link₀ : σ₀) (ops : List Operation)
    (t : Transport σ μ β ε) (c : Completion) (status : Option Code) (link : σ) :
    let fresh := Engine.ofStream stream config inspector
    let e := (Engine.after t₀ ops fresh link₀).1
    let h := (History.ofEngine fresh link₀).run t₀ ops
    let x := Engine.complete t c status e link
    ∀ r ∈ h.records.head?, e.isActive = true → r.Awaits c →
      x.result = r.answer t c link status ∧
      (x.result.isSome →
        x.engine.session? = none ∧ x.engine.progress = none ∧
        ∀ upload, (x.engine.admission upload).Valid →
          ∀ t' : Transport σ μ β ε, t'.Accepting → ∀ link',
            (Engine.start t' upload x.engine link').result = .ok ()) ∧
      (x.result = none →
        ∃ s s', e.session? = some s ∧ x.engine.session? = some s' ∧ s.Settles c.num s') := by
  intro fresh e h x r hrecord hactive hawaits
  have hs : h.Sound := (History.Sound.ofEngine rfl).run ops
  have he : h.engine = e := congrArg Prod.fst (History.run_engine t₀ ops _)
  rw [← he] at hactive
  obtain ⟨hresult, hover, hgoes⟩ := hs.complete_awaited hactive hrecord hawaits t status link
  rw [he] at hresult hover hgoes
  refine ⟨hresult, fun hsome => ?_, fun hnone => ?_⟩
  · have hfree := hover hsome
    refine ⟨hfree, ?_, fun upload hvalid t' ht' link' =>
      Engine.start_of_accepting ht' hfree hvalid⟩
    rw [Engine.progress, hfree]
    rfl
  · obtain ⟨s', hsession', hruns', hrest'⟩ := hgoes hnone
    obtain ⟨s, howner, hdrives⟩ := hs.exists_owner hactive hrecord hawaits
    obtain ⟨hsession, howns⟩ := Engine.owner?_eq_some_iff.1 howner
    -- The window reaches no less far with one more block acknowledged.
    have hnext := hdrives.runs.next_le_reach
    have hnext' := hruns'.next_eq_reach hrest'
    rw [Finset.card_insert_of_notMem hawaits.2.2.2] at hnext'
    have hmono : s.window.next.toNat ≤ s'.window.next.toNat := by
      unfold Admission.reach at hnext hnext'
      omega
    exact ⟨s, s', he ▸ hsession, hsession', hdrives.runs.settles howns.2.2 hruns' hmono⟩

/-- The sample waits for its first two blocks.  The first is acknowledged, and the third
goes out in silence; the server applies the body in answer to the second, and the sample
can be started again. -/
theorem completion_answered_sample :
    let fresh := Engine.new default ()
    let a := fresh.admission .sample
    let e := (Engine.after .sink [.start .sample] fresh ()).1
    let x := Engine.complete .sink (a.completion 0) (some .continued) e ()
    let y := Engine.complete .sink (a.completion 1) (some .changed) e ()
    x.result = none ∧
      (∃ s s', e.session? = some s ∧ x.engine.session? = some s' ∧ s.Settles 0 s') ∧
      y.result = some (.ok { token := a.token, blocks := 3, bytes := 40, code := .changed }) ∧
      y.engine.progress = none ∧ (Engine.start .sink .sample y.engine ()).result = .ok () := by
  intro fresh a e x y
  have hrecords : ((History.ofEngine fresh ()).run .sink [.start .sample]).records.map
      (fun r => decide (r.Awaits (a.completion 0)) && decide (r.Awaits (a.completion 1))) =
      [true] := by decide +kernel
  obtain ⟨r, _, hr, hawaits, -⟩ := List.map_eq_cons_iff.1 hrecords
  rw [Bool.and_eq_true, decide_eq_true_iff, decide_eq_true_iff] at hawaits
  have hrecord : r ∈ ((History.ofEngine fresh ()).run Transport.sink
      [.start .sample]).records.head? := congrArg List.head? hr
  have hactive : e.isActive = true := by decide +kernel
  have hx : x.result = none := by decide +kernel
  have hy : y.result =
      some (.ok { token := a.token, blocks := 3, bytes := 40, code := .changed }) := by
    decide +kernel
  obtain ⟨-, -, hgoes⟩ := completion_answered .sink (.ofSeed 0) default () () [.start .sample]
    .sink (a.completion 0) (some .continued) () r hrecord hactive hawaits.1
  obtain ⟨-, hover, -⟩ := completion_answered .sink (.ofSeed 0) default () () [.start .sample]
    .sink (a.completion 1) (some .changed) () r hrecord hactive hawaits.2
  obtain ⟨-, hprogress, hagain⟩ := hover (Option.isSome_of_eq_some hy)
  exact ⟨hx, hgoes hx, hy, hprogress,
    hagain .sample (Upload.sample_valid y.engine) .sink Transport.sink_accepting ()⟩

end Blockwise
