import Blockwise.Proofs.Accepting
import Blockwise.Proofs.Checked
import Blockwise.Proofs.History
/-!
# An engine without faults

The engine once more, with `Checked` arithmetic in all places where it computes with
words, and with its two branches that are not meant to be reached turned into faults: the
next block to send is missing, and a first window fails for a cause that is no failure to
take a block.  Generations are meant to wrap, and stay as they are.

**The invariant.**  Nothing is assumed of the events.  An active session is one of a valid
admission (`Session.Fits`), which bounds its counters and its blocks, and a completion
reaches the arithmetic only if the session owns it.  Where that holds, each checked
function does what the engine does (`Checked.fill_eq`, `Checked.handle_eq`), and the engine
keeps it (`Engine.Fits.handle`).  So a checked run is the run (`no_faults`).
-/

namespace Blockwise

variable {ι σ μ β ε : Type}

/-! ## Sessions that fit -/

/-- The session is one of some admission, and its body is not too large. -/
structure Session.Fits (s : Session) : Prop where
  runs : ∃ a acked, Admission.Runs a acked s
  body_le : s.body.size ≤ maxBody

/-- The active session fits, if there is one. -/
def Engine.Fits (e : Engine ι) : Prop := ∀ s, e.session? = some s → s.Fits

/-- The event does not ask for a body that is too large. -/
def Event.Fits (event : Event) : Prop :=
  ∀ upload, event = .admissionRequested upload → upload.body.size ≤ maxBody

namespace Session.Fits

variable {s : Session} {b : Block}

theorem canSend_eq (h : s.Fits) : Checked.canSend s.window = .ok (decide s.window.CanSend) := by
  obtain ⟨a, acked, hruns⟩ := h.runs
  exact Checked.canSend_eq hruns.tracks.highest_le_next

/-- The number of the next block is one that a header can carry. -/
theorem toNat_next_le (h : s.Fits) (hsend : s.window.CanSend) :
    s.window.next.toNat ≤ Header.maxNum := by
  obtain ⟨a, acked, hruns⟩ := h.runs
  have hlt := (hruns.tracks.canSend_iff.1 hsend).1
  have hle := hruns.valid.total_le
  rw [hruns.toNat_total] at hlt
  omega

theorem dispatch (h : s.Fits) (hsend : s.window.CanSend) :
    Fits { s with window := s.window.dispatch } := by
  obtain ⟨⟨a, acked, hruns⟩, hbody⟩ := h
  exact ⟨⟨a, acked, hruns.dispatch hsend⟩, hbody⟩

end Session.Fits

theorem Engine.Fits.of_owner {e : Engine ι} (he : e.Fits) {c : Completion} {s : Session}
    (howner : e.owner? c = some s) : s.Fits ∧ c.num ∈ s.window.inFlight :=
  ⟨he s (owner?_eq_some_iff.1 howner).1, (owner?_eq_some_iff.1 howner).2.2.2⟩

/-- The filling loop is entered with a session that fits. -/
theorem Engine.Enters.fits {t : Transport σ μ β ε} {e : Engine ι} {link : σ} {event : Event}
    {x : Filling ι σ} (h : Enters t e link event x) (he : e.Fits) (hevent : event.Fits) :
    x.session.Fits := by
  cases h with
  | admission hfree hready hsession =>
    obtain ⟨hvalid, rfl⟩ := sessionOf_eq_ok_iff.1 hsession
    exact ⟨⟨_, ∅, .fresh hvalid⟩, hevent _ rfl⟩
  | acknowledgement howner hlast =>
    obtain ⟨⟨⟨a, acked, hruns⟩, hbody⟩, hmem⟩ := he.of_owner howner
    exact ⟨⟨a, _, hruns.acknowledge hmem hlast⟩, hbody⟩

section Keeping

variable [Inspector ι] {t : Transport σ μ β ε}

theorem Filling.Round.fits {x y : Filling ι σ} (h : Round t x y) (hx : x.session.Fits) :
    y.session.Fits := by
  obtain ⟨hsend, hblock, hdeliver⟩ := h
  exact hx.dispatch hsend

theorem Filling.Rounds.fits {x y : Filling ι σ} (h : Rounds t x y) (hx : x.session.Fits) :
    y.session.Fits :=
  h.invariant hx fun hx hround => hround.fits hx

theorem Filling.fits_fill {x : Filling ι σ} (hx : x.session.Fits) : (x.fill t).session.Fits := by
  obtain ⟨y, hrounds, hstops⟩ := exists_stops t x
  rw [hstops.session_eq]
  exact hrounds.fits hx

/-- Every event keeps the active session fitting. -/
theorem Engine.Fits.handle {e : Engine ι} {link : σ} {event : Event} (he : e.Fits)
    (hevent : event.Fits) : (handle t event e link).engine.Fits := by
  have hcourse := handle_course t event e link
  generalize Engine.handle t event e link = r at hcourse ⊢
  cases hcourse with
  | busy | disconnected | invalid | idle | ignored => exact he
  | admitted henters hfill hresult =>
    rintro s ⟨⟩
    exact hfill ▸ Filling.fits_fill (henters.fits he hevent)
  | advanced henters hfill hresult =>
    rintro s ⟨⟩
    exact hfill ▸ Filling.fits_fill (henters.fits he hevent)
  | aborted | cancelled | overrun | broken | applied | rejected | timedOut => rintro s ⟨⟩

end Keeping

namespace Checked

/-! ## Filling -/

/-- What a filling loop leaves behind that might fail for any cause. -/
structure Loop (ι σ ε : Type) where
  result : Except (Cause ε) Unit
  session : Session
  inspector : ι
  link : σ
  notices : Array Notice

/-- What the filling loop leaves behind, the failures of the message layer among all
other causes. -/
def Loop.ofFilled (f : Filled ι σ ε) : Loop ι σ ε where
  result := f.result.mapError .dispatch
  session := f.session
  inspector := f.inspector
  link := f.link
  notices := f.notices

/-- One round of the loop: it stops, or goes on with another state. -/
def round [Inspector ι] (t : Transport σ μ β ε) (x : Filling ι σ) :
    Checked (Loop ι σ ε ⊕ Filling ι σ) := do
  let s := x.session
  if ← canSend s.window then
    match ← cut? s.body s.size s.window.next with
    | none => throw .unreachable
    | some b =>
      -- The message layer packs the header of every message that it is handed.
      let _ ← value b.header
      match s.deliver t b x.link with
      | .error e link => return .inl ⟨.error (.dispatch e), s, x.inspector, link, x.notices⟩
      | .ok _ link =>
        let digest := b.digest
        let window ← dispatch s.window
        let _ ← summary digest window.total
        return .inr {
          session := { s with window }
          inspector := Inspector.observe digest x.inspector
          link
          notices := (x.notices ++ Inspector.notices ι digest).push
            (.dispatched digest s.window.total) }
  else
    return .inl ⟨.ok (), s, x.inspector, x.link, x.notices⟩

section Filling

variable [Inspector ι] {t : Transport σ μ β ε} {x y : Filling ι σ}

/-- A round after which the loop goes on sends a block that was not sent before. -/
theorem unsent_round (h : round t x = .ok (.inr y)) :
    y.session.window.unsent < x.session.window.unsent := by
  obtain ⟨answer, hsend, h⟩ := exists_of_bind h
  cases answer with
  | false => cases h
  | true =>
    obtain ⟨piece, hcut, h⟩ := exists_of_bind h
    cases piece with
    | none => cases h
    | some b =>
      obtain ⟨word, hvalue, h⟩ := exists_of_bind h
      dsimp only at h
      split at h
      · cases h
      · obtain ⟨window, hnext, h⟩ := exists_of_bind h
        obtain ⟨text, htext, h⟩ := exists_of_bind h
        obtain rfl := eq_of_dispatch hnext
        cases h
        have hless := Window.unsent_dispatch (of_decide_eq_true (eq_of_canSend hsend).symm)
        exact Nat.lt_of_succ_le (Nat.le_of_eq hless)

/-- The filling loop. -/
def fill (t : Transport σ μ β ε) (x : Filling ι σ) : Checked (Loop ι σ ε) :=
  match _h : round t x with
  | .error fault => .error fault
  | .ok (.inl loop) => .ok loop
  | .ok (.inr y) => fill t y
termination_by x.session.window.unsent
decreasing_by exact unsent_round ‹_›

theorem fill_of_stops {loop : Loop ι σ ε} (h : round t x = .ok (.inl loop)) :
    fill t x = .ok loop := by
  rw [fill]
  split <;> rename_i h' <;> cases h.symm.trans h'
  rfl

theorem fill_of_goes_on (h : round t x = .ok (.inr y)) : fill t x = fill t y := by
  rw [fill]
  split <;> rename_i h' <;> cases h.symm.trans h'
  rfl

omit [Inspector ι] in
/-- While a block may go out there is one, and its number is one that a header can
carry. -/
theorem cut?_next_eq {b : Block} (hx : x.session.Fits) (hsend : x.session.window.CanSend)
    (hblock : x.session.block? x.session.window.next = some b) :
    cut? x.session.body x.session.size x.session.window.next = .ok (some b) ∧
      value b.header = .ok b.header.value ∧
      summary b.digest x.session.window.total = .ok (b.digest.summary x.session.window.total) := by
  have hnum : b.header.num = x.session.window.next := Block.num_of_cut? hblock
  refine ⟨?_, ?_, ?_⟩
  · rw [cut?_eq hx.body_le]
    exact congrArg Except.ok hblock
  · exact value_eq (hnum ▸ hx.toNat_next_le hsend)
  · refine summary_eq ?_
    show b.header.num.toNat < _
    rw [hnum]
    exact UInt32.lt_iff_toNat_lt.1 hsend.1

/-- A round of the loop is a round of the checked one. -/
theorem round_of_round (hx : x.session.Fits) (h : Filling.Round t x y) :
    round t x = .ok (.inr y) := by
  obtain ⟨hsend, hblock, hdeliver⟩ := h
  obtain ⟨hcut, hvalue, hsummary⟩ := cut?_next_eq hx hsend hblock
  unfold round
  dsimp only
  rw [hx.canSend_eq, ok_bind, if_pos (decide_eq_true hsend), hcut, ok_bind]
  dsimp only
  rw [hvalue, ok_bind, hdeliver]
  dsimp only
  rw [dispatch_eq hsend, ok_bind]
  show (summary _ x.session.window.total >>= _) = _
  rw [hsummary]
  rfl

/-- The loop stops where the checked one stops, and never for the want of a block. -/
theorem round_of_stops {f : Filled ι σ ε} (hx : x.session.Fits) (h : Filling.Stops t x f) :
    round t x = .ok (.inl (.ofFilled f)) := by
  unfold round
  dsimp only
  rw [hx.canSend_eq, ok_bind]
  cases h with
  | full hsend =>
    rw [decide_eq_false hsend]
    rfl
  | exhausted hsend hblock =>
    obtain ⟨a, acked, hruns⟩ := hx.runs
    obtain ⟨b, hb⟩ := hruns.exists_block? hsend
    cases hblock.symm.trans hb
  | failed hsend hblock hdeliver =>
    obtain ⟨hcut, hvalue, -⟩ := cut?_next_eq hx hsend hblock
    rw [if_pos (decide_eq_true hsend), hcut, ok_bind]
    dsimp only
    rw [hvalue, ok_bind, hdeliver]
    rfl

/-- The filling loop meets no fault. -/
theorem fill_eq (hx : x.session.Fits) : fill t x = .ok (.ofFilled (x.fill t)) := by
  obtain ⟨y, hrounds, hstops⟩ := Filling.exists_stops t x
  have hloop : fill t x = fill t y := by
    refine hrounds.invariant (P := fun y => fill t x = fill t y ∧ y.session.Fits) ⟨rfl, hx⟩ ?_ |>.1
    rintro y z ⟨heq, hy⟩ hround
    exact ⟨heq.trans (fill_of_goes_on (round_of_round hy hround)), hround.fits hy⟩
  rw [hloop]
  exact fill_of_stops (round_of_stops (hrounds.fits hx) hstops)

end Filling

/-! ## Operations -/

section Operations

variable [Inspector ι] (t : Transport σ μ β ε)

/-- `Engine.start`. -/
def start (upload : Upload) (e : Engine ι) (link : σ) :
    Checked (Reaction ι σ (Except (UploadError ε) Unit)) :=
  match e.session? with
  | some _ => return ⟨.error .transferInProgress, e, link, #[.busy upload.target]⟩
  | none =>
    let (ready, link) := t.ready link
    if ready then do
      let (token, source) := e.source.next
      -- Generations are meant to wrap.
      let generation := e.generation + 1
      match ← ofUpload upload e.config token generation with
      | .error reason =>
        return ⟨.error (.invalidArgument reason), { e with source }, link, #[.invalid reason]⟩
      | .ok s =>
        let sending := .sending s.body.size s.path s.window.total s.size s.window.limit token
        let loop ← fill t ⟨s, e.inspector, link, #[sending]⟩
        let e := { e with source, generation, inspector := loop.inspector }
        match loop.result with
        | .ok () =>
          return ⟨.ok (), { e with slot := .active loop.session }, loop.link, loop.notices⟩
        | .error (.dispatch failure) =>
          return ⟨.error (.dispatch failure), { e with slot := .failed }, loop.link, loop.notices⟩
        | .error .timeout | .error (.remoteRejected _) | .error .cancelled => throw .unreachable
    else
      return ⟨.error .notReady, e, link, #[.disconnected]⟩

/-- `Engine.acknowledged`. -/
def acknowledged (s : Session) (num : UInt32) (e : Engine ι) (link : σ) :
    Checked (Reaction ι σ (Option (Outcome ε))) := do
  if ← isLast s.window num then
    return Engine.fail (.remoteRejected .continued) e link #[.continuedAfterLast]
  else
    let window ← acknowledge s.window num
    let s := { s with window }
    if s.window.AllSent then
      return ⟨none, { e with slot := .active s }, link, #[]⟩
    else
      let loop ← fill t ⟨s, e.inspector, link, #[]⟩
      let e := { e with inspector := loop.inspector }
      match loop.result with
      | .ok () => return ⟨none, { e with slot := .active loop.session }, loop.link, loop.notices⟩
      | .error cause => return Engine.fail cause e loop.link loop.notices

/-- `Engine.applied`. -/
def applied (s : Session) (num : UInt32) (code : Code) (e : Engine ι) (link : σ) :
    Checked (Reaction ι σ (Option (Outcome ε))) := do
  let report : Report :=
    { token := s.token, blocks := s.window.total, bytes := s.body.size, code }
  let early := if ← isLast s.window num then #[] else #[.appliedEarly code num s.window.total]
  return {
    result := some (.ok report)
    engine := { e with slot := .completed }
    link
    notices := early.push (.applied code report.bytes report.blocks) }

/-- `Engine.forOwner`. -/
def forOwner (c : Completion) (e : Engine ι) (link : σ)
    (continuation : Session → Checked (Reaction ι σ (Option (Outcome ε)))) :
    Checked (Reaction ι σ (Option (Outcome ε))) :=
  match e.owner? c with
  | none => return ⟨none, e, link, #[.ignored c.num]⟩
  | some s => continuation s

/-- `Engine.handle`. -/
def handle (event : Event) (e : Engine ι) (link : σ) :
    Checked (Reaction ι σ (Option (Outcome ε))) :=
  match event with
  | .admissionRequested upload => do
    let r ← start t upload e link
    return r.map fun
      | .ok () => none
      | .error failure => some (.error failure)
  | .cancelled => return Engine.cancel e link
  | .blockAckReceived c => forOwner c e link fun s => acknowledged t s c.num e link
  | .transferApplied c code => forOwner c e link fun s => applied s c.num code e link
  | .blockRejected c code => forOwner c e link fun s => return Engine.rejected s c.num code e link
  | .blockTimedOut c => forOwner c e link fun s => return Engine.timedOut s c.num e link

/-- `Engine.perform`. -/
def perform (op : Operation) (e : Engine ι) (link : σ) :
    Checked (Reaction ι σ (Answer ε)) :=
  match op with
  | .start upload => return (← start t upload e link).map .admission
  | .startUpload path body format =>
    return (← start t { path, body, format } e link).map .admission
  | .handle event => return (← handle t event e link).map .outcome
  | .complete c status => return (← handle t (.completed c status) e link).map .outcome
  | .cancel => return (Engine.cancel e link).map .outcome

/-- `Engine.run`. -/
def run : List Operation → Engine ι → σ → Checked (List (Reaction ι σ (Answer ε)))
  | [], _, _ => return []
  | op :: ops, e, link => do
    let r ← perform t op e link
    let rs ← run ops r.engine r.link
    return r :: rs

end Operations

/-! ## No operation meets a fault -/

section Agreement

variable [Inspector ι] {t : Transport σ μ β ε} {e : Engine ι} {link : σ}

theorem start_eq {upload : Upload} (he : e.Fits) (hbody : upload.body.size ≤ maxBody) :
    start t upload e link = .ok (Engine.start t upload e link) := by
  cases hslot : e.session? with
  | some s =>
    rw [start, Engine.start, hslot]
    rfl
  | none =>
    cases hready : (t.ready link).1 with
    | false =>
      have hpair : t.ready link = (false, (t.ready link).2) := Prod.ext hready rfl
      rw [Engine.start_of_not_ready hslot hready, start, hslot]
      dsimp only
      rw [hpair]
      rfl
    | true =>
      have hpair : t.ready link = (true, (t.ready link).2) := Prod.ext hready rfl
      rw [Engine.start_of_ready hslot hready, start, hslot]
      dsimp only
      rw [hpair]
      dsimp only
      rw [if_pos rfl, ofUpload_eq _ _ _ hbody, ok_bind]
      show (match e.sessionOf upload with | .error _ => _ | .ok _ => _) = _
      cases hsession : e.sessionOf upload with
      | error reason => rfl
      | ok s =>
        have henters : Engine.Enters t e link (.admissionRequested upload) _ :=
          .admission hslot hready hsession
        have hfits := henters.fits he (by rintro _ ⟨⟩; exact hbody)
        dsimp only
        show (fill t (e.opening s (t.ready link).2) >>= _) = _
        rw [fill_eq hfits, ok_bind]
        -- The filling loop fails for no other cause than a failure to take a block.
        cases hresult : ((e.opening s (t.ready link).2).fill t).result with
        | ok u => simp only [Loop.ofFilled, hresult, Except.mapError]; rfl
        | error failure => simp only [Loop.ofFilled, hresult, Except.mapError]; rfl

theorem acknowledged_eq {c : Completion} {s : Session} (he : e.Fits)
    (howner : e.owner? c = some s) :
    acknowledged t s c.num e link = .ok (Engine.acknowledged t s c.num e link) := by
  obtain ⟨⟨⟨a, acked, hruns⟩, -⟩, hmem⟩ := he.of_owner howner
  rw [acknowledged, isLast_eq hruns.tracks hmem, ok_bind]
  by_cases hlast : s.window.IsLast c.num
  · rw [if_pos (decide_eq_true hlast), Engine.acknowledged, if_pos hlast]
    rfl
  · have henters : Engine.Enters t e link (.blockAckReceived c) _ := .acknowledgement howner hlast
    have hfits := henters.fits he (by rintro _ ⟨⟩)
    rw [if_neg (by simpa using hlast), acknowledge_eq hruns.tracks hmem, ok_bind,
      Engine.acknowledged, if_neg hlast]
    dsimp only
    by_cases hall : (s.window.acknowledge c.num).AllSent
    · rw [if_pos hall, if_pos hall]
      rfl
    · rw [if_neg hall, if_neg hall]
      have hfill : fill t (e.advancing s c.num link) = .ok (.ofFilled
          (Session.fill t { s with window := s.window.acknowledge c.num } e.inspector link #[])) :=
        fill_eq hfits
      show (fill t (e.advancing s c.num link) >>= _) = _
      rw [hfill, ok_bind]
      generalize Session.fill t _ e.inspector link #[] = filled
      cases hresult : filled.result with
      | ok u => simp only [Loop.ofFilled, hresult, Except.mapError]; rfl
      | error failure => simp only [Loop.ofFilled, hresult, Except.mapError]; rfl

omit [Inspector ι] in
theorem applied_eq {c : Completion} {code : Code} {s : Session} (he : e.Fits)
    (howner : e.owner? c = some s) :
    applied (ε := ε) s c.num code e link = .ok (Engine.applied s c.num code e link) := by
  obtain ⟨⟨⟨a, acked, hruns⟩, -⟩, hmem⟩ := he.of_owner howner
  rw [applied, isLast_eq hruns.tracks hmem]
  by_cases hlast : s.window.IsLast c.num <;> simp [Engine.applied, hlast]

theorem handle_eq {event : Event} (he : e.Fits) (hevent : event.Fits) :
    handle t event e link = .ok (Engine.handle t event e link) := by
  cases event with
  | admissionRequested upload =>
    rw [handle, start_eq he (hevent upload rfl)]
    rfl
  | cancelled => rfl
  | blockAckReceived c =>
    rw [handle, Engine.handle, forOwner, Engine.forOwner]
    cases howner : e.owner? c with
    | none => rfl
    | some s => exact acknowledged_eq he howner
  | transferApplied c code =>
    rw [handle, Engine.handle, forOwner, Engine.forOwner]
    cases howner : e.owner? c with
    | none => rfl
    | some s => exact applied_eq he howner
  | blockRejected c code =>
    rw [handle, Engine.handle, forOwner, Engine.forOwner]
    cases e.owner? c <;> rfl
  | blockTimedOut c =>
    rw [handle, Engine.handle, forOwner, Engine.forOwner]
    cases e.owner? c <;> rfl

theorem perform_eq {op : Operation} (he : e.Fits) (hop : op.event.Fits) :
    perform t op e link = .ok (Engine.perform t op e link) := by
  cases op with
  | start upload =>
    rw [perform, start_eq he (hop upload rfl)]
    rfl
  | startUpload path body format =>
    rw [perform, start_eq he (hop _ rfl)]
    rfl
  | handle event =>
    rw [perform, handle_eq he (show event.Fits from hop)]
    rfl
  | complete c status =>
    rw [perform, handle_eq he (show (Event.completed c status).Fits from hop)]
    rfl
  | cancel => rfl

/-- A run meets no fault, and every active session fits. -/
theorem run_eq (link : σ) {ops : List Operation} (he : e.Fits) (hops : ∀ op ∈ ops, op.event.Fits) :
    run t ops e link = .ok (Engine.run t ops e link) ∧ (Engine.after t ops e link).1.Fits := by
  induction ops generalizing e link with
  | nil => exact ⟨rfl, he⟩
  | cons op ops ih =>
    obtain ⟨hop, hops⟩ := List.forall_mem_cons.1 hops
    have hengine : (Engine.perform t op e link).engine.Fits := by
      rw [Engine.perform_eq]
      exact he.handle hop
    obtain ⟨hrun, hfits⟩ := ih (Engine.perform t op e link).link hengine hops
    refine ⟨?_, hfits⟩
    rw [run, perform_eq he hop, ok_bind, hrun]
    rfl

end Agreement

end Checked

/-! ## Every run -/

/-- **No arithmetic fault, and no dead branch.**  In every run with bodies of at most
`2 ^ 63 - 1` octets, whatever the operations, forged completions with any block number
among them, the engine with checked arithmetic meets no fault and does what the engine
does.  Nor does it meet one in taking a snapshot at the end of any such run. -/
theorem no_faults [Inspector ι] (t : Transport σ μ β ε) (stream : WordStream) (config : Config)
    (inspector : ι) (link : σ) (ops : List Operation)
    (hbody : ∀ op ∈ ops, ∀ upload, op.event = .admissionRequested upload →
      upload.body.size ≤ 2 ^ 63 - 1) :
    let fresh := Engine.ofStream stream config inspector
    Checked.run t ops fresh link = .ok (Engine.run t ops fresh link) ∧
      ∀ s, (Engine.after t ops fresh link).1.session? = some s →
        Checked.progress s = .ok s.progress := by
  intro fresh
  have hfresh : fresh.Fits := by rintro s ⟨⟩
  obtain ⟨hrun, hfits⟩ := Checked.run_eq (t := t) link hfresh hbody
  refine ⟨hrun, fun s hactive => ?_⟩
  obtain ⟨⟨a, acked, hruns⟩, hsize⟩ := hfits s hactive
  exact Checked.progress_eq hruns hsize

/-- Sending the sample meets no fault, though a completion is forged for the largest block
number that there is. -/
theorem no_faults_sample :
    let fresh := Engine.new default ()
    let a := fresh.admission .sample
    let ops : List Operation := [.start .sample,
      .complete { a.completion 0 with num := 0xFFFFFFFF } (some .continued),
      .complete (a.completion 1) (some .continued)]
    (∀ op ∈ ops, ∀ upload, op.event = .admissionRequested upload →
        upload.body.size ≤ 2 ^ 63 - 1) ∧
      Checked.run Transport.sink ops fresh () = .ok (Engine.run Transport.sink ops fresh ()) ∧
      (∃ s, (Engine.after Transport.sink ops fresh ()).1.session? = some s ∧
        Checked.progress s = .ok s.progress) := by
  intro fresh a ops
  have hbody : ∀ op ∈ ops, ∀ upload, op.event = .admissionRequested upload →
      upload.body.size ≤ 2 ^ 63 - 1 := by
    simp only [ops, List.forall_mem_cons]
    refine ⟨?_, ?_, ?_, by simp⟩
    · rintro _ ⟨⟩
      decide
    · rintro _ ⟨⟩
    · rintro _ ⟨⟩
  obtain ⟨hrun, hprogress⟩ := no_faults .sink (.ofSeed 0) default () () ops hbody
  have hactive : (Engine.after Transport.sink ops fresh ()).1.session?.isSome := by decide +kernel
  obtain ⟨s, hs⟩ := Option.isSome_iff_exists.1 hactive
  exact ⟨hbody, hrun, s, hs, hprogress s hs⟩

end Blockwise
