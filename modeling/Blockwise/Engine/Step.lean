import Blockwise.Engine.Fill
/-!
# The operations of an engine

An upload is admitted, or refused for the first reason that applies: another
upload is active, the message layer is not ready, an argument is unacceptable.
An admitted upload sends its first window of blocks at once; from there on every
step is taken when the message layer reports how the exchange of a block ended.

**One outcome.**  An admission that succeeds is followed by exactly one outcome,
however the session ends: the server applies the body or rejects a block, a
block has no response, the message layer fails to take a block, or the caller
gives up.  Reports that the active session does not own change nothing.

* `Engine.start` — asks for an upload
* `Engine.handle` — takes an event
* `Engine.complete` — takes the end of an exchange
* `Engine.cancel` — gives the active upload up
-/

namespace Blockwise.Engine

variable {ι σ μ β ε : Type}

/-! ## Admission -/

/-- Asks for an upload and sends its first window of blocks.  An error means
that the upload is over or never began, and that nothing further will be
reported for it.  A token is drawn, and a generation taken, for every upload
that finds the slot free and the message layer ready; an upload with an
unacceptable argument gives the generation back, but not the token. -/
def start [Inspector ι] (t : Transport σ μ β ε) (upload : Upload) (e : Engine ι) (link : σ) :
    Reaction ι σ (Except (UploadError ε) Unit) :=
  match e.session? with
  | some _ => ⟨.error .transferInProgress, e, link, #[.busy upload.target]⟩
  | none =>
    let (ready, link) := t.ready link
    if ready then
      -- The draw comes before the arguments are looked at, so even a refusal for an
      -- argument uses a token up.
      let (token, source) := e.source.next
      let generation := e.generation + 1
      match Session.ofUpload upload e.config token generation with
      | .error reason => ⟨.error (.invalidArgument reason), { e with source }, link, #[.invalid reason]⟩
      | .ok s =>
        let sending := .sending s.body.size s.path s.window.total s.size s.window.limit token
        let filled := s.fill t e.inspector link #[sending]
        let e := { e with source, generation, inspector := filled.inspector }
        match filled.result with
        | .ok () => ⟨.ok (), { e with slot := .active filled.session }, filled.link, filled.notices⟩
        | .error failure =>
          -- The upload never became active: this error is all that is heard of it.
          ⟨.error (.dispatch failure), { e with slot := .failed }, filled.link, filled.notices⟩
    else
      ⟨.error .notReady, e, link, #[.disconnected]⟩

/-- Asks for an upload of `body` to `path` with everything else as configured. -/
def startUpload [Inspector ι] (t : Transport σ μ β ε) (path : String) (body : ByteArray)
    (format : ContentFormat) (e : Engine ι) (link : σ) :
    Reaction ι σ (Except (UploadError ε) Unit) :=
  start t { path, body, format } e link

/-! ## Ends of sessions -/

/-- Releases the slot: the session ends without success, for this cause. -/
def fail (cause : Cause ε) (e : Engine ι) (link : σ) (notices : Array Notice) :
    Reaction ι σ (Option (Outcome ε)) :=
  ⟨some (.error (.failed cause)), { e with slot := .failed }, link, notices⟩

/-- Gives the active upload up.  Blocks that the message layer has already are
not called back; what is reported of them will be ignored. -/
def cancel (e : Engine ι) (link : σ) : Reaction ι σ (Option (Outcome ε)) :=
  match e.session? with
  | none => ⟨none, e, link, #[]⟩
  | some _ => fail .cancelled e link #[.cancelled]

/-! ## Answers to blocks

In what follows `s` is the active session, and block `num` of it waits for an
answer. -/

/-- The server stored block `num` and wants more.  After the last block there is
no more to be had, and no final answer will follow. -/
def acknowledged [Inspector ι] (t : Transport σ μ β ε) (s : Session) (num : UInt32) (e : Engine ι)
    (link : σ) : Reaction ι σ (Option (Outcome ε)) :=
  if s.window.IsLast num then
    fail (.remoteRejected .continued) e link #[.continuedAfterLast]
  else
    let s := { s with window := s.window.acknowledge num }
    if s.window.AllSent then
      -- Nothing is left to send, and the answer to the last block is still to come.
      ⟨none, { e with slot := .active s }, link, #[]⟩
    else
      let filled := s.fill t e.inspector link #[]
      let e := { e with inspector := filled.inspector }
      match filled.result with
      | .ok () => ⟨none, { e with slot := .active filled.session }, filled.link, filled.notices⟩
      | .error failure => fail (.dispatch failure) e filled.link filled.notices

/-- The server applied the whole body, in answer to block `num`. -/
def applied (s : Session) (num : UInt32) (code : Code) (e : Engine ι) (link : σ) :
    Reaction ι σ (Option (Outcome ε)) :=
  let report : Report :=
    { token := s.token, blocks := s.window.total, bytes := s.body.size, code }
  let early := if s.window.IsLast num then #[] else #[.appliedEarly code num s.window.total]
  { result := some (.ok report)
    engine := { e with slot := .completed }
    link
    notices := early.push (.applied code report.bytes report.blocks) }

/-- The server answered block `num` with a code that ends the upload. -/
def rejected (s : Session) (num : UInt32) (code : Code) (e : Engine ι) (link : σ) :
    Reaction ι σ (Option (Outcome ε)) :=
  fail (.remoteRejected code) e link #[.rejected num s.window.inFlight[num]? code]

/-- Block `num` had no response. -/
def timedOut (s : Session) (num : UInt32) (e : Engine ι) (link : σ) :
    Reaction ι σ (Option (Outcome ε)) :=
  fail .timeout e link #[.timedOut num s.window.inFlight[num]?]

/-- Goes on with the active session if it owns the completion, and ignores the
completion otherwise. -/
def forOwner (c : Completion) (e : Engine ι) (link : σ)
    (continuation : Session → Reaction ι σ (Option (Outcome ε))) :
    Reaction ι σ (Option (Outcome ε)) :=
  match e.owner? c with
  | none => ⟨none, e, link, #[.ignored c.num]⟩
  | some s => continuation s

/-! ## Events -/

/-- Takes an event.  There is an answer once for every upload that was admitted,
when it ends, and for every request that is refused. -/
def handle [Inspector ι] (t : Transport σ μ β ε) (event : Event) (e : Engine ι) (link : σ) :
    Reaction ι σ (Option (Outcome ε)) :=
  match event with
  | .admissionRequested upload =>
    (start t upload e link).map fun
      | .ok () => none
      | .error failure => some (.error failure)
  | .cancelled => cancel e link
  | .blockAckReceived c => forOwner c e link fun s => acknowledged t s c.num e link
  | .transferApplied c code => forOwner c e link fun s => applied s c.num code e link
  | .blockRejected c code => forOwner c e link fun s => rejected s c.num code e link
  | .blockTimedOut c => forOwner c e link fun s => timedOut s c.num e link

/-- Takes the end of the exchange that `completion` went with: the code of the
response, or `none` when there was none. -/
def complete [Inspector ι] (t : Transport σ μ β ε) (completion : Completion) (status : Option Code)
    (e : Engine ι) (link : σ) : Reaction ι σ (Option (Outcome ε)) :=
  handle t (.completed completion status) e link

end Blockwise.Engine
