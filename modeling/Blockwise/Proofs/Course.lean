import Blockwise.Engine.Operation
import Blockwise.Proofs.Fill
/-!
# The courses that an event can take

`Engine.Course` lists, once and for all, what an event can come to: how the
engine was found, and what is left behind.  Everything that is kept by the
operations of an engine is proved by cases on it, and nothing else opens them.

Two of the events make the engine send blocks, an admission and an
acknowledgement.  `Engine.Enters` says from which state they enter the loop that
does so.  An acknowledgement after which nothing is left to send enters it as
well, and leaves it at once (`Engine.acknowledged_of_not_isLast`).

* `Operation.event` — the event that an operation comes to
* `Engine.Enters` — the state in which an event enters the filling loop
* `Engine.Course`, `Engine.handle_course` — the courses, and that there are no
  others
* `Engine.after` — the state between two operations of a run
-/

namespace Blockwise

variable {ι σ μ β ε : Type}

/-- The event that an operation comes to. -/
def Operation.event : Operation → Event
  | start upload => .admissionRequested upload
  | startUpload path body format => .admissionRequested { path, body, format }
  | handle event => event
  | complete completion status => .completed completion status
  | cancel => .cancelled

/-- What an operation answers where the event that it comes to has this outcome.
Those that start an upload say whether it was admitted. -/
def Operation.answer (outcome : Option (Outcome ε)) : Operation → Answer ε
  | start _ | startUpload .. =>
    match outcome with
    | some (.error failure) => .admission (.error failure)
    | some (.ok _) | none => .admission (.ok ())
  | handle _ | complete .. | cancel => .outcome outcome

namespace Engine

/-- The session that an upload has on this engine, if it finds the slot free and
the message layer ready. -/
def sessionOf (e : Engine ι) (upload : Upload) : Except Invalid Session :=
  Session.ofUpload upload e.config e.source.next.1 (e.generation + 1)

/-- The engine after a token was drawn and a generation taken. -/
def opened (e : Engine ι) : Engine ι :=
  { e with source := e.source.next.2, generation := e.generation + 1 }

/-- The state in which an admitted session enters the filling loop. -/
def opening (e : Engine ι) (s : Session) (link : σ) : Filling ι σ where
  session := s
  inspector := e.inspector
  link
  notices := #[.sending s.body.size s.path s.window.total s.size s.window.limit e.source.next.1]

/-- The state in which the session enters the filling loop after block `num` was
acknowledged. -/
def advancing (e : Engine ι) (s : Session) (num : UInt32) (link : σ) : Filling ι σ where
  session := { s with window := s.window.acknowledge num }
  inspector := e.inspector
  link
  notices := #[]

theorem owner?_eq_some_iff {e : Engine ι} {c : Completion} {s : Session} :
    e.owner? c = some s ↔ e.session? = some s ∧ s.Owns c := by
  simp [owner?, Option.filter_eq_some_iff]

theorem owner?_eq_none_iff {e : Engine ι} {c : Completion} :
    e.owner? c = none ↔ ∀ s, e.session? = some s → ¬ s.Owns c := by
  simp [owner?, Option.filter_eq_none_iff]

theorem isActive_iff {e : Engine ι} : e.isActive = true ↔ ∃ s, e.session? = some s := by
  unfold isActive status
  rw [decide_eq_true_iff, Slot.status_eq_active_iff, Option.isSome_iff_exists]
  rfl

theorem session?_of_not_isActive {e : Engine ι} (h : e.isActive = false) : e.session? = none := by
  cases hs : e.session? with
  | none => rfl
  | some s => cases h.symm.trans (isActive_iff.2 ⟨s, hs⟩)

theorem isActive_of_session? {e : Engine ι} {s : Session} (hs : e.session? = some s) :
    e.isActive = true := isActive_iff.2 ⟨s, hs⟩

theorem not_isActive_of_session? {e : Engine ι} (hfree : e.session? = none) :
    e.isActive = false := by
  refine Bool.eq_false_iff.2 fun hactive => ?_
  obtain ⟨s, hs⟩ := isActive_iff.1 hactive
  cases hfree.symm.trans hs

variable [Inspector ι] (t : Transport σ μ β ε) (e : Engine ι) (link : σ)

/-- The state in which an event enters the filling loop, if it does. -/
inductive Enters : Event → Filling ι σ → Prop
  /-- An admitted session sends its first window. -/
  | admission {upload : Upload} {s : Session} (hfree : e.session? = none)
      (hready : (t.ready link).1 = true) (hsession : e.sessionOf upload = .ok s) :
      Enters (.admissionRequested upload) (e.opening s (t.ready link).2)
  /-- An acknowledgement makes room for further blocks. -/
  | acknowledgement {c : Completion} {s : Session} (howner : e.owner? c = some s)
      (hlast : ¬ s.window.IsLast c.num) :
      Enters (.blockAckReceived c) (e.advancing s c.num link)

/-- What an event can come to, on this engine and this link. -/
inductive Course : Event → Reaction ι σ (Option (Outcome ε)) → Prop
  | busy {upload : Upload} {s : Session} (hactive : e.session? = some s) :
      Course (.admissionRequested upload)
        ⟨some (.error .transferInProgress), e, link, #[.busy upload.target]⟩
  | disconnected {upload : Upload} (hfree : e.session? = none)
      (hready : (t.ready link).1 = false) :
      Course (.admissionRequested upload)
        ⟨some (.error .notReady), e, (t.ready link).2, #[.disconnected]⟩
  | invalid {upload : Upload} {reason : Invalid} (hfree : e.session? = none)
      (hready : (t.ready link).1 = true) (hsession : e.sessionOf upload = .error reason) :
      Course (.admissionRequested upload)
        ⟨some (.error (.invalidArgument reason)), { e with source := e.source.next.2 },
          (t.ready link).2, #[.invalid reason]⟩
  | admitted {upload : Upload} {x : Filling ι σ} {f : Filled ι σ ε}
      (henters : Enters t e link (.admissionRequested upload) x) (hfill : x.fill t = f)
      (hresult : f.result = .ok ()) :
      Course (.admissionRequested upload)
        ⟨none, { e.opened with inspector := f.inspector, slot := .active f.session }, f.link,
          f.notices⟩
  | aborted {upload : Upload} {x : Filling ι σ} {f : Filled ι σ ε} {failure : DispatchError ε}
      (henters : Enters t e link (.admissionRequested upload) x) (hfill : x.fill t = f)
      (hresult : f.result = .error failure) :
      Course (.admissionRequested upload)
        ⟨some (.error (.dispatch failure)),
          { e.opened with inspector := f.inspector, slot := .failed }, f.link, f.notices⟩
  | idle (hfree : e.session? = none) : Course .cancelled ⟨none, e, link, #[]⟩
  | cancelled {s : Session} (hactive : e.session? = some s) :
      Course .cancelled (fail .cancelled e link #[.cancelled])
  | ignored {event : Event} {c : Completion} (hcompletion : event.completion? = some c)
      (howner : e.owner? c = none) : Course event ⟨none, e, link, #[.ignored c.num]⟩
  | overrun {c : Completion} {s : Session} (howner : e.owner? c = some s)
      (hlast : s.window.IsLast c.num) :
      Course (.blockAckReceived c)
        (fail (.remoteRejected .continued) e link #[.continuedAfterLast])
  | advanced {c : Completion} {x : Filling ι σ} {f : Filled ι σ ε}
      (henters : Enters t e link (.blockAckReceived c) x) (hfill : x.fill t = f)
      (hresult : f.result = .ok ()) :
      Course (.blockAckReceived c)
        ⟨none, { e with inspector := f.inspector, slot := .active f.session }, f.link, f.notices⟩
  | broken {c : Completion} {x : Filling ι σ} {f : Filled ι σ ε} {failure : DispatchError ε}
      (henters : Enters t e link (.blockAckReceived c) x) (hfill : x.fill t = f)
      (hresult : f.result = .error failure) :
      Course (.blockAckReceived c)
        (fail (.dispatch failure) { e with inspector := f.inspector } f.link f.notices)
  | applied {c : Completion} {code : Code} {s : Session} (howner : e.owner? c = some s) :
      Course (.transferApplied c code) (Engine.applied s c.num code e link)
  | rejected {c : Completion} {code : Code} {s : Session} (howner : e.owner? c = some s) :
      Course (.blockRejected c code) (Engine.rejected s c.num code e link)
  | timedOut {c : Completion} {s : Session} (howner : e.owner? c = some s) :
      Course (.blockTimedOut c) (Engine.timedOut s c.num e link)

variable {t e link}

/-! ## There are no other courses -/

/-- An acknowledgement of a block that is not the last goes through the filling
loop, also when nothing is left to send. -/
theorem acknowledged_of_not_isLast {s : Session} {num : UInt32} (hlast : ¬ s.window.IsLast num) :
    acknowledged t s num e link =
      let f := (e.advancing s num link).fill t
      match f.result with
      | .ok () =>
        ⟨none, { e with inspector := f.inspector, slot := .active f.session }, f.link, f.notices⟩
      | .error failure =>
        fail (.dispatch failure) { e with inspector := f.inspector } f.link f.notices := by
  rw [acknowledged, if_neg hlast]
  dsimp only
  split
  · -- With all blocks sent the loop is left at once.
    rename_i hall
    have hsend : ¬ (s.window.acknowledge num).CanSend := fun h => by
      rw [Window.AllSent] at hall
      exact UInt32.lt_irrefl _ (hall ▸ h.1)
    rw [Filling.fill, Session.fill_of_not_canSend (by exact hsend)]
    rfl
  · rfl

theorem start_of_not_ready {upload : Upload} (hfree : e.session? = none)
    (hready : (t.ready link).1 = false) :
    start t upload e link = ⟨.error .notReady, e, (t.ready link).2, #[.disconnected]⟩ := by
  have hpair : t.ready link = (false, (t.ready link).2) := Prod.ext hready rfl
  rw [start, hfree]
  dsimp only
  rw [hpair]
  rfl

/-- What an upload comes to that finds the slot free and the message layer
ready. -/
theorem start_of_ready {upload : Upload} (hfree : e.session? = none)
    (hready : (t.ready link).1 = true) :
    start t upload e link =
      match e.sessionOf upload with
      | .error reason =>
        ⟨.error (.invalidArgument reason), { e with source := e.source.next.2 },
          (t.ready link).2, #[.invalid reason]⟩
      | .ok s =>
        let f := (e.opening s (t.ready link).2).fill t
        match f.result with
        | .ok () =>
          ⟨.ok (), { e.opened with inspector := f.inspector, slot := .active f.session }, f.link,
            f.notices⟩
        | .error failure =>
          ⟨.error (.dispatch failure), { e.opened with inspector := f.inspector, slot := .failed },
            f.link, f.notices⟩ := by
  have hpair : t.ready link = (true, (t.ready link).2) := Prod.ext hready rfl
  rw [start, hfree]
  dsimp only
  rw [hpair]
  rfl

theorem admissionRequested_course (t : Transport σ μ β ε) (upload : Upload) (e : Engine ι)
    (link : σ) :
    Course t e link (.admissionRequested upload)
      (handle t (.admissionRequested upload) e link) := by
  rw [handle]
  cases hslot : e.session? with
  | some s =>
    rw [start, hslot]
    exact .busy hslot
  | none =>
    cases hready : (t.ready link).1 with
    | false =>
      rw [start_of_not_ready hslot hready]
      exact .disconnected hslot hready
    | true =>
      rw [start_of_ready hslot hready]
      cases hsession : e.sessionOf upload with
      | error reason => exact .invalid hslot hready hsession
      | ok s =>
        dsimp only
        have henters : Enters t e link (.admissionRequested upload) _ :=
          .admission hslot hready hsession
        cases hresult : ((e.opening s (t.ready link).2).fill t).result with
        | ok u => exact .admitted henters rfl hresult
        | error failure => exact .aborted henters rfl hresult

theorem handle_course (t : Transport σ μ β ε) (event : Event) (e : Engine ι) (link : σ) :
    Course t e link event (handle t event e link) := by
  cases event with
  | admissionRequested upload => exact admissionRequested_course t upload e link
  | cancelled =>
    rw [handle, cancel]
    cases hslot : e.session? with
    | none => exact .idle hslot
    | some s => exact .cancelled hslot
  | blockAckReceived c =>
    rw [handle, forOwner]
    cases howner : e.owner? c with
    | none => exact .ignored rfl howner
    | some s =>
      dsimp only
      by_cases hlast : s.window.IsLast c.num
      · rw [acknowledged, if_pos hlast]
        exact .overrun howner hlast
      · rw [acknowledged_of_not_isLast hlast]
        have henters : Enters t e link (.blockAckReceived c) (e.advancing s c.num link) :=
          .acknowledgement howner hlast
        cases hresult : ((e.advancing s c.num link).fill t).result with
        | ok u =>
          simp only [hresult]
          exact .advanced henters rfl hresult
        | error failure =>
          simp only [hresult]
          exact .broken henters rfl hresult
  | transferApplied c code =>
    rw [handle, forOwner]
    cases howner : e.owner? c with
    | none => exact .ignored rfl howner
    | some s => exact .applied howner
  | blockRejected c code =>
    rw [handle, forOwner]
    cases howner : e.owner? c with
    | none => exact .ignored rfl howner
    | some s => exact .rejected howner
  | blockTimedOut c =>
    rw [handle, forOwner]
    cases howner : e.owner? c with
    | none => exact .ignored rfl howner
    | some s => exact .timedOut howner

/-- An operation is the event that it comes to, up to the form of the answer. -/
theorem perform_eq (t : Transport σ μ β ε) (op : Operation) (e : Engine ι) (link : σ) :
    perform t op e link = (handle t op.event e link).map op.answer := by
  have hstart : ∀ upload, (start t upload e link).map Answer.admission =
      (handle t (.admissionRequested upload) e link).map (Operation.start upload).answer := by
    intro upload
    rw [handle]
    cases hresult : (start t upload e link).result <;>
      simp [Reaction.map, Operation.answer, hresult]
  cases op with
  | start upload => exact hstart upload
  | startUpload path body format => exact hstart _
  | handle event => rfl
  | complete completion status => rfl
  | cancel => rfl

/-! ## Between operations -/

/-- The engine and the link after a run. -/
def after (t : Transport σ μ β ε) : List Operation → Engine ι → σ → Engine ι × σ
  | [], e, link => (e, link)
  | op :: ops, e, link =>
    let r := perform t op e link
    after t ops r.engine r.link

theorem config_handle (t : Transport σ μ β ε) (event : Event) (e : Engine ι) (link : σ) :
    (handle t event e link).engine.config = e.config := by
  have hcourse := handle_course t event e link
  generalize handle t event e link = r at hcourse ⊢
  cases hcourse <;> rfl

/-- An engine keeps its configuration. -/
theorem config_after (t : Transport σ μ β ε) (ops : List Operation) (e : Engine ι) (link : σ) :
    (after t ops e link).1.config = e.config := by
  induction ops generalizing e link with
  | nil => rfl
  | cons op ops ih =>
    rw [after, ih, perform_eq]
    exact config_handle t op.event e link

end Engine

end Blockwise
