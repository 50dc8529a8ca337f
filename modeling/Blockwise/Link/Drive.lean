import Blockwise.Engine.Step
import Blockwise.Link.Scripted
/-!
# Driving an upload

A peer that answers the pending exchanges of a scripted link, one at a time,
until the upload has an outcome.  A `Plan` says in which order the exchanges are
answered and by which codes.

**It ends.**  Each answer takes an exchange off the pending ones, and whatever
the engine sends in turn was not sent before.  So the number of pending
exchanges and unsent blocks together goes down by one at least, and bounds the
number of answers.
-/

namespace Blockwise.Link

/-- How pending exchanges are to be answered. -/
structure Plan where
  /-- The greatest number of answers, if there is one. -/
  limit : Option Nat := none
  /-- By how much the place of the next exchange moves on with every answer. -/
  stride : Nat := 0
  /-- Whether blocks with more to follow are answered before all others. -/
  lastLast : Bool := false
  /-- The status of a block with more to follow. -/
  continued : Option Code := some .continued
  /-- The status of the last block. -/
  final : Option Code := some .changed
  /-- The status of particular blocks, whatever follows them. -/
  exceptions : List (UInt32 × Option Code) := []

/-- What is recorded of one answer. -/
structure Answered where
  /-- The number of the block that was answered. -/
  num : UInt32
  /-- The active session afterwards. -/
  progress : Option Progress

/-- What driving an upload leaves behind. -/
structure Driven (ι : Type) where
  /-- The outcome, if there was one. -/
  outcome : Option (Outcome Refusal)
  /-- The answers, in order. -/
  trace : Array Answered
  engine : Engine ι
  link : Recorded Link
  /-- What there is to be told, in order. -/
  notices : Array Notice

/-- Whether the message says that more blocks follow. -/
def Exchange.more (x : Exchange) : Bool := x.message.block?.any (·.more)

/-- The status that a plan has for an exchange. -/
def Plan.status (plan : Plan) (x : Exchange) : Option Code :=
  match plan.exceptions.lookup x.completion.num with
  | some status => status
  | none => if Exchange.more x then plan.continued else plan.final

/-- The places among the pending exchanges that may be answered now. -/
def Plan.candidates (plan : Plan) (link : Link) : List Nat :=
  let all := List.range link.pending.size
  -- Places and not exchanges: what is chosen is taken off the list by its place.
  let early := all.filter fun place =>
    (link.pending[place]?.bind (link.sent[·]?)).any Exchange.more
  if plan.lastLast && !early.isEmpty then early else all

/-- The pending exchange to answer after `answered` others. -/
def Plan.choose (plan : Plan) (answered : Nat) (link : Link) : Option (Exchange × Link) :=
  let candidates := plan.candidates link
  candidates[answered * plan.stride % candidates.length]?.bind link.takePending

variable {ι : Type} [Inspector ι]

/-- Answers at most `answers` more pending exchanges, and stops at an outcome. -/
def drive.loop (plan : Plan) :
    (answers : Nat) → Array Answered → Engine ι → Recorded Link → Array Notice → Driven ι
  | 0, trace, e, link, notices => ⟨none, trace, e, link, notices⟩
  | answers + 1, trace, e, ⟨link, calls⟩, notices =>
    match plan.choose trace.size link with
    | none => ⟨none, trace, e, ⟨link, calls⟩, notices⟩
    | some (x, link) =>
      let status := plan.status x
      let r := Engine.complete transport.recorded x.completion status e ⟨link, calls⟩
      let trace := trace.push ⟨x.completion.num, r.engine.progress⟩
      let notices := notices ++ r.notices
      match r.result with
      | some outcome => ⟨some outcome, trace, r.engine, r.link, notices⟩
      | none => drive.loop plan answers trace r.engine r.link notices

/-- How many answers there can be at most: one for every pending exchange, and
one for every block of the active session that was not sent yet. -/
def answersLeft (e : Engine ι) (link : Link) : Nat :=
  link.pending.size + (e.session?.map (·.window.unsent)).getD 0

/-- Answers pending exchanges as planned, until the upload has an outcome. -/
def drive (plan : Plan) (e : Engine ι) (link : Recorded Link) : Driven ι :=
  let most := answersLeft e link.link
  let answers := (plan.limit.map (min most)).getD most
  drive.loop plan answers #[] e link #[]

end Blockwise.Link
