import Blockwise.Proofs.Accepting
/-!
# One outcome for every admission

Seen from outside, an engine is a machine of four states that moves when an
upload is admitted or ends.  `Status.Turn` lists its moves, each with the answer
that tells of it, and every operation makes one (`Engine.perform_turn`).

So whoever hears all answers knows the status at every moment
(`Status.replay_answers`), and that every upload that was admitted has its one
outcome, but for an active one, which will have it later
(`countP_admits`).

**Silence after a request.**  Where an upload is asked for by an event, the
answer to an admission is silence, as it is where an event changes nothing.  One
has to know what was asked to tell the two apart: the answers alone are not
enough (`heard_ne_status_of_request`).
-/

namespace Blockwise

variable {ι σ μ β ε : Type}

/-! ## Moves -/

/-- The event asks for an upload. -/
def Event.isRequest : Event → Bool
  | admissionRequested _ => true
  | blockAckReceived _ | transferApplied .. | blockRejected .. | blockTimedOut _ | cancelled =>
    false

/-- What is about a block asks for nothing. -/
theorem Event.not_isRequest_of_completion? {event : Event} {c : Completion}
    (hcompletion : event.completion? = some c) : event.isRequest = false := by
  cases event <;> first | rfl | cases hcompletion

/-- The moves that an event can make an engine do: the status before it, the
answer, and the status after it. -/
inductive Status.Turn : Event → Status → Option (Outcome ε) → Status → Prop
  | admitted {event : Event} {s : Status} (hrequest : event.isRequest = true) (hs : s ≠ .active) :
      Turn event s none .active
  | refused {event : Event} {s : Status} {failure : UploadError ε}
      (hrequest : event.isRequest = true) (hadmission : failure.isAdmission = true)
      (hbusy : failure = .transferInProgress → s = .active) :
      Turn event s (some (.error failure)) s
  | aborted {event : Event} {s : Status} {failure : DispatchError ε}
      (hrequest : event.isRequest = true) (hs : s ≠ .active) :
      Turn event s (some (.error (.dispatch failure))) .failed
  | kept {event : Event} {s : Status} (hrequest : event.isRequest = false) : Turn event s none s
  | applied {event : Event} {report : Report} (hrequest : event.isRequest = false) :
      Turn event .active (some (.ok report)) .completed
  | failed {event : Event} {cause : Cause ε} (hrequest : event.isRequest = false) :
      Turn event .active (some (.error (.failed cause))) .failed

namespace Engine

variable {e : Engine ι} {s : Session}

theorem status_of_session? (hactive : e.session? = some s) : e.status = .active :=
  Slot.status_eq_active_iff.2 (Option.isSome_iff_exists.2 ⟨s, hactive⟩)

theorem status_ne_active (hfree : e.session? = none) : e.status ≠ .active := by
  intro hstatus
  have hsome : e.session?.isSome := Slot.status_eq_active_iff.1 hstatus
  rw [hfree] at hsome
  cases hsome

theorem status_of_owner? {c : Completion} (howner : e.owner? c = some s) : e.status = .active :=
  status_of_session? (owner?_eq_some_iff.1 howner).1

variable [Inspector ι] {t : Transport σ μ β ε} {link : σ} {event : Event}

omit [Inspector ι] in
/-- Whatever enters the filling loop by a request found the slot free. -/
theorem Enters.status_ne_active {upload : Upload} {x : Filling ι σ}
    (h : Enters t e link (.admissionRequested upload) x) : e.status ≠ .active := by
  cases h with
  | admission hfree hready hsession => exact Engine.status_ne_active hfree

/-- Every event makes one of the moves. -/
theorem handle_turn (t : Transport σ μ β ε) (event : Event) (e : Engine ι) (link : σ) :
    Status.Turn event e.status (handle t event e link).result
      (handle t event e link).engine.status := by
  have hcourse := handle_course t event e link
  generalize handle t event e link = r at hcourse ⊢
  cases hcourse with
  | busy hactive => exact .refused rfl rfl fun _ => status_of_session? hactive
  | disconnected hfree hready => exact .refused rfl rfl fun h => by cases h
  | invalid hfree hready hsession => exact .refused rfl rfl fun h => by cases h
  | admitted henters hfill hresult => exact .admitted rfl henters.status_ne_active
  | aborted henters hfill hresult => exact .aborted rfl henters.status_ne_active
  | idle hfree => exact .kept rfl
  | cancelled hactive =>
    rw [status_of_session? hactive]
    exact .failed rfl
  | ignored hcompletion howner => exact .kept (Event.not_isRequest_of_completion? hcompletion)
  | overrun howner hlast =>
    rw [status_of_owner? howner]
    exact .failed rfl
  | advanced henters hfill hresult =>
    obtain ⟨s, howner, -⟩ := henters.runs_of_ack
    rw [status_of_owner? howner]
    exact .kept rfl
  | broken henters hfill hresult =>
    obtain ⟨s, howner, -⟩ := henters.runs_of_ack
    rw [status_of_owner? howner]
    exact .failed rfl
  | applied howner =>
    rw [status_of_owner? howner]
    exact .applied rfl
  | rejected howner =>
    rw [status_of_owner? howner]
    exact .failed rfl
  | timedOut howner =>
    rw [status_of_owner? howner]
    exact .failed rfl

/-- Every operation makes the move of the event that it comes to. -/
theorem perform_turn (t : Transport σ μ β ε) (op : Operation) (e : Engine ι) (link : σ) :
    ∃ outcome, (perform t op e link).result = op.answer outcome ∧
      Status.Turn op.event e.status outcome (perform t op e link).engine.status := by
  rw [perform_eq]
  exact ⟨_, rfl, handle_turn t op.event e link⟩

end Engine

/-! ## Listening -/

/-- The error that the answer reports, if it reports one. -/
def Answer.error? : Answer ε → Option (UploadError ε)
  | admission (.error failure) | outcome (some (.error failure)) => some failure
  | admission (.ok _) | outcome (some (.ok _)) | outcome none => none

/-- The answer to this operation says that an upload was admitted. -/
def Answer.admits (op : Operation) : Answer ε → Bool
  | admission (.ok _) => true
  | outcome none => op.event.isRequest
  | admission (.error _) | outcome (some _) => false

/-- The answer is the outcome of an upload that had been admitted. -/
def Answer.ends : Answer ε → Bool
  | outcome (some (.ok _)) | outcome (some (.error (.failed _))) => true
  | outcome (some (.error _)) | outcome none | admission _ => false

namespace Status

/-- The status after an answer, going by the answer alone: an admission makes the
engine active, a report or a failure ends that, and a refusal or silence changes
nothing. -/
def heard (s : Status) : Answer ε → Status
  | .admission (.ok _) => active
  | .outcome (some (.ok _)) => completed
  | .outcome none => s
  | .admission (.error failure) | .outcome (some (.error failure)) =>
    if failure.isAdmission then s else failed

/-- The status after the answer to an operation: as it is heard, except that
silence after a request is an admission. -/
def next (s : Status) (op : Operation) (answer : Answer ε) : Status :=
  if answer.admits op then active else s.heard answer

/-- The status after the answers to these operations. -/
def replay (s : Status) (ops : List Operation) (answers : List (Answer ε)) : Status :=
  (ops.zip answers).foldl (fun s p => s.next p.1 p.2) s

end Status

/-- What may be heard of an operation on an engine with status `s`. -/
structure Answer.Fits (answer : Answer ε) (op : Operation) (s : Status) : Prop where
  /-- An upload is admitted only where none is active. -/
  admits : answer.admits op = true → s ≠ .active
  /-- That another upload is active is said only where one is. -/
  busy : answer.error? = some .transferInProgress → s = .active
  /-- A request does not fail as an upload under way does. -/
  request : op.event.isRequest = true → ∀ cause, answer.error? ≠ some (.failed cause)
  /-- Anything else is answered only where an upload is active, and with a report
  or a failure. -/
  ends : op.event.isRequest = false → ∀ outcome, answer = .outcome (some outcome) →
    s = .active ∧ ∀ failure, outcome = .error failure → ∃ cause, failure = .failed cause

/-! ## What is heard -/

namespace Operation

variable {op : Operation}

theorem admits_answer_none :
    (op.answer (none : Option (Outcome ε))).admits op = op.event.isRequest := by
  cases op <;> rfl

theorem admits_answer_error {failure : UploadError ε} :
    (op.answer (some (.error failure))).admits op = false := by
  cases op <;> rfl

theorem error?_answer_none : (op.answer (none : Option (Outcome ε))).error? = none := by
  cases op <;> rfl

theorem error?_answer_error {failure : UploadError ε} :
    (op.answer (some (.error failure))).error? = some failure := by
  cases op <;> rfl

/-- The error that is reported is that of the outcome. -/
theorem error?_answer_eq_some_iff {outcome : Option (Outcome ε)} {failure : UploadError ε} :
    (op.answer outcome).error? = some failure ↔ outcome = some (.error failure) := by
  obtain _ | e | report := outcome
  · rw [error?_answer_none]
    exact iff_of_false (by rintro ⟨⟩) (by rintro ⟨⟩)
  · rw [error?_answer_error, Option.some_inj, Option.some_inj]
    exact ⟨congrArg _, Except.error.inj⟩
  · have hnone : (op.answer (some (.ok report) : Option (Outcome ε))).error? = none := by
      cases op <;> rfl
    rw [hnone]
    exact iff_of_false (by rintro ⟨⟩) (by rintro ⟨⟩)

theorem heard_answer_error {failure : UploadError ε} {s : Status} :
    s.heard (op.answer (some (.error failure))) =
      if failure.isAdmission then s else .failed := by
  cases op <;> rfl

theorem ends_answer_none : (op.answer (none : Option (Outcome ε))).ends = false := by
  cases op <;> rfl

theorem ends_answer_error {failure : UploadError ε} (h : ∀ cause, failure ≠ .failed cause) :
    (op.answer (some (.error failure))).ends = false := by
  cases failure with
  | failed cause => exact absurd rfl (h cause)
  | _ => cases op <;> rfl

/-- What asks for nothing is answered as the event is. -/
theorem answer_of_not_request (hrequest : op.event.isRequest = false)
    (outcome : Option (Outcome ε)) : op.answer outcome = .outcome outcome := by
  cases op with
  | start upload => cases hrequest
  | startUpload path body format => cases hrequest
  | handle event => rfl
  | complete completion status => rfl
  | cancel => rfl

end Operation

namespace Status.Turn

open Operation

variable {op : Operation} {s s' : Status} {outcome : Option (Outcome ε)}

/-- The status is heard. -/
theorem next_eq (h : Turn op.event s outcome s') : s.next op (op.answer outcome) = s' := by
  unfold next
  cases h with
  | admitted hrequest hs => rw [admits_answer_none, if_pos hrequest]
  | refused hrequest hadmission hbusy =>
    rw [admits_answer_error, heard_answer_error, if_pos hadmission]
    rfl
  | aborted hrequest hs =>
    rw [admits_answer_error, heard_answer_error]
    rfl
  | kept hrequest =>
    rw [admits_answer_none, answer_of_not_request hrequest, hrequest]
    rfl
  | applied hrequest =>
    rw [answer_of_not_request hrequest]
    rfl
  | failed hrequest =>
    rw [answer_of_not_request hrequest]
    rfl

theorem fits (h : Turn op.event s outcome s') : (op.answer outcome).Fits op s := by
  cases h with
  | admitted hrequest hs =>
    refine ⟨fun _ => hs, ?_, ?_, ?_⟩
    · rw [error?_answer_none]
      rintro ⟨⟩
    · intro _ cause
      rw [error?_answer_none]
      rintro ⟨⟩
    · intro h
      cases hrequest.symm.trans h
  | refused hrequest hadmission hbusy =>
    refine ⟨?_, ?_, ?_, ?_⟩
    · rw [admits_answer_error]
      rintro ⟨⟩
    · rw [error?_answer_error]
      rintro ⟨⟩
      exact hbusy rfl
    · intro _ cause
      rw [error?_answer_error]
      rintro ⟨⟩
      cases hadmission
    · intro h
      cases hrequest.symm.trans h
  | aborted hrequest hs =>
    refine ⟨?_, ?_, ?_, ?_⟩
    · rw [admits_answer_error]
      rintro ⟨⟩
    · rw [error?_answer_error]
      rintro ⟨⟩
    · intro _ cause
      rw [error?_answer_error]
      rintro ⟨⟩
    · intro h
      cases hrequest.symm.trans h
  | kept hrequest =>
    rw [answer_of_not_request hrequest]
    refine ⟨fun h => ?_, ?_, ?_, ?_⟩
    · cases hrequest.symm.trans h
    · rintro ⟨⟩
    · rintro - cause ⟨⟩
    · rintro - outcome ⟨⟩
  | applied hrequest =>
    rw [answer_of_not_request hrequest]
    refine ⟨?_, ?_, ?_, ?_⟩
    · rintro ⟨⟩
    · rintro ⟨⟩
    · rintro - cause ⟨⟩
    · rintro - outcome ⟨⟩
      exact ⟨rfl, by rintro failure ⟨⟩⟩
  | failed hrequest =>
    rw [answer_of_not_request hrequest]
    refine ⟨?_, ?_, ?_, ?_⟩
    · rintro ⟨⟩
    · rintro ⟨⟩
    · intro h
      cases hrequest.symm.trans h
    · rintro - outcome ⟨⟩
      refine ⟨rfl, ?_⟩
      rintro failure ⟨⟩
      exact ⟨_, rfl⟩

/-- Every admission makes an upload active, every outcome ends one, and nothing
else does either. -/
theorem balance (h : Turn op.event s outcome s') :
    ((op.answer outcome).admits op).toNat + (decide (s = .active)).toNat =
      (op.answer outcome).ends.toNat + (decide (s' = .active)).toNat := by
  cases h with
  | admitted hrequest hs =>
    rw [admits_answer_none, ends_answer_none, hrequest, decide_eq_false hs]
    rfl
  | refused hrequest hadmission hbusy =>
    rw [admits_answer_error, ends_answer_error]
    rintro cause rfl
    cases hadmission
  | aborted hrequest hs =>
    rw [admits_answer_error, ends_answer_error, decide_eq_false hs]
    · rfl
    · rintro cause ⟨⟩
  | kept hrequest => rw [admits_answer_none, ends_answer_none, hrequest]
  | applied hrequest =>
    rw [answer_of_not_request hrequest]
    rfl
  | failed hrequest =>
    rw [answer_of_not_request hrequest]
    rfl

end Status.Turn

/-! ## Runs -/

namespace Engine

variable [Inspector ι]

/-- Whoever hears the answers to a run knows the status after it. -/
theorem replay_answers (t : Transport σ μ β ε) (ops : List Operation) (e : Engine ι) (link : σ) :
    e.status.replay ops ((run t ops e link).map Reaction.result) =
      (after t ops e link).1.status := by
  induction ops generalizing e link with
  | nil => rfl
  | cons op ops ih =>
    obtain ⟨outcome, hresult, hturn⟩ := perform_turn t op e link
    rw [after, ← ih, ← hturn.next_eq, ← hresult]
    rfl

/-- Over a run, the admissions and the upload that was active before it are as
many as the outcomes and the upload that is active after it. -/
theorem countP_admits (t : Transport σ μ β ε) (ops : List Operation) (e : Engine ι) (link : σ) :
    let answers := (run t ops e link).map Reaction.result
    (ops.zip answers).countP (fun p => p.2.admits p.1) + e.isActive.toNat =
      answers.countP Answer.ends + (after t ops e link).1.isActive.toNat := by
  induction ops generalizing e link with
  | nil => rfl
  | cons op ops ih =>
    obtain ⟨outcome, hresult, hturn⟩ := perform_turn t op e link
    have hbalance : ((perform t op e link).result.admits op).toNat + e.isActive.toNat =
        (perform t op e link).result.ends.toNat + (perform t op e link).engine.isActive.toNat := by
      rw [hresult]
      exact hturn.balance
    have hrest := ih (perform t op e link).engine (perform t op e link).link
    have hcount : ∀ b : Bool, (if b = true then 1 else 0) = b.toNat := by decide
    rw [run, after]
    dsimp only at hrest ⊢
    rw [List.map_cons, List.zip_cons_cons, List.countP_cons, List.countP_cons, hcount, hcount]
    dsimp only
    omega

end Engine

/-- **Exactly one outcome, and a truthful status.**  After every run of a fresh
engine, whoever replays the answers, counting silence after a request as its
admission, knows the status; whatever is asked next is answered as the status
allows; and the admissions are as many as the outcomes, and one more while an
upload is active. -/
theorem exactly_one_outcome [Inspector ι] (t : Transport σ μ β ε) (stream : WordStream)
    (config : Config) (inspector : ι) (link : σ) (ops : List Operation) :
    let fresh := Engine.ofStream stream config inspector
    let answers := (Engine.run t ops fresh link).map Reaction.result
    let state := Engine.after t ops fresh link
    Status.idle.replay ops answers = state.1.status ∧
    (∀ op, (Engine.perform t op state.1 state.2).result.Fits op state.1.status) ∧
    (ops.zip answers).countP (fun p => p.2.admits p.1) =
      answers.countP Answer.ends + if state.1.isActive then 1 else 0 := by
  intro fresh answers state
  refine ⟨Engine.replay_answers t ops fresh link, ?_, ?_⟩
  · intro op
    obtain ⟨outcome, hresult, hturn⟩ := Engine.perform_turn t op state.1 state.2
    rw [hresult]
    exact hturn.fits
  · have hcount := Engine.countP_admits t ops fresh link
    have hactive : (if state.1.isActive then 1 else 0) = state.1.isActive.toNat := by
      cases state.1.isActive <;> rfl
    rw [hactive]
    exact hcount

/-- The answers alone do not tell the status.  After a request by an event that is
met with silence, as the admission of the sample is, they leave it at idle. -/
theorem heard_ne_status_of_request :
    let fresh := Engine.new default ()
    let ops := [Operation.handle (.admissionRequested .sample)]
    let answers := (Engine.run .sink ops fresh ()).map Reaction.result
    answers = [.outcome none] ∧ answers.foldl Status.heard .idle = .idle ∧
      (Engine.after .sink ops fresh ()).1.status = .active := by
  intro fresh ops answers
  obtain ⟨x, -, hhandle⟩ := Engine.handle_request_of_accepting Transport.sink_accepting
    (e := fresh) rfl (Upload.sample_valid fresh) ()
  have hanswers : answers = [.outcome none] := by
    show [Answer.outcome (Engine.handle _ (.admissionRequested .sample) fresh ()).result] = _
    rw [hhandle]
  refine ⟨hanswers, ?_, ?_⟩
  · rw [hanswers]
    rfl
  · show (Engine.handle _ (.admissionRequested .sample) fresh ()).engine.status = _
    rw [hhandle]
    rfl

end Blockwise
