import Blockwise.Message.Basic
import Blockwise.Transport
/-!
# A link that follows a script

A message layer without a network: it makes messages, keeps those that it takes,
and refuses the calls that a script lists by their position.  Whether a call is
refused depends on its position and on nothing else, so two such links with one
script refuse alike.

**What is kept.**  Every message that was taken stays on the link.  Those whose
exchange was not reported yet are pending; a report is made by selecting an
exchange, and only selecting a pending one by its place takes it off the list.

* `Script` — which calls are refused
* `Link` — the counts of calls, and the exchanges
* `Link.transport` — the transport of such links
* `Link.select` — the completion of an exchange
-/

namespace Blockwise

/-- Why a message could not be filled. -/
inductive BuildError where
  /-- There is no room for another option. -/
  | tooManyOptions
deriving DecidableEq, Repr

/-- Why a call was refused. -/
inductive Refusal where
  /-- The script refuses to create the message. -/
  | create
  /-- The script refuses to send the message. -/
  | send
  /-- The message could not be filled. -/
  | build (e : BuildError)
deriving DecidableEq, Repr

/-- The name of the error. -/
def BuildError.describe : BuildError → String
  | tooManyOptions => "TooManyOptions"

/-- The name of the refusal. -/
def Refusal.describe : Refusal → String
  | create => "Create"
  | send => "Send"
  | build e => s!"Build({e.describe})"

/-- What of a message is set by one call. -/
inductive Part where
  | path
  | format
  | block
  | payload
deriving DecidableEq, Repr

/-- Which calls are refused, by their position among the calls of their kind. -/
structure Script where
  /-- Whether the link is ready, or `none` if it is not for the link to say. -/
  ready : Option Bool := some true
  /-- The requests for a message that are refused. -/
  creates : List Nat := []
  /-- The messages that are not taken. -/
  sends : List Nat := []
  /-- The parts that cannot be set, by the position of the message. -/
  parts : List (Nat × Part) := []

/-- A message that was taken, and what goes with it. -/
structure Exchange where
  message : Message
  /-- What is given back when the exchange is over. -/
  completion : Completion

/-- A link that follows a script. -/
structure Link where
  /-- Which calls are refused. -/
  script : Script := {}
  /-- How many messages were asked for. -/
  created : Nat := 0
  /-- How many messages were handed over. -/
  offered : Nat := 0
  /-- The messages that were taken, in order. -/
  sent : Array Exchange := #[]
  /-- The places in `sent` whose exchange was not reported yet. -/
  pending : Array Nat := #[]

/-- A message of a scripted link, which knows its position. -/
structure Draft where
  /-- How many messages were asked for before it. -/
  position : Nat
  message : Message

namespace Link

/-- The next message asked for. -/
def create (method : Method) (token : Token) : EStateM Refusal Link Draft := fun link =>
  let position := link.created
  let link := { link with created := position + 1 }
  if position ∈ link.script.creates then
    .error .create link
  else
    .ok ⟨position, .request method token⟩ link

/-- Sets a part of a message by `f`. -/
def set (part : Part) (f : Message → Message) (draft : Draft) : EStateM BuildError Link Draft :=
  fun link =>
    if (draft.position, part) ∈ link.script.parts then
      .error .tooManyOptions link
    else
      .ok { draft with message := f draft.message } link

/-- Takes a message. -/
def send (draft : Draft) (completion : Completion) : EStateM Refusal Link Unit := fun link =>
  let position := link.offered
  let link := { link with offered := position + 1 }
  if position ∈ link.script.sends then
    .error .send link
  else
    .ok ()
      { link with
        sent := link.sent.push ⟨draft.message, completion⟩
        pending := link.pending.push link.sent.size }

/-- The transport of scripted links. -/
def transport : Transport Link Draft BuildError Refusal where
  ready := fun link => (link.script.ready.getD true, link)
  create := create
  setPath path := set .path (Message.setPath path)
  setFormat format := set .format (Message.setFormat format)
  setBlock header := set .block (Message.setBlock header)
  setPayload payload := set .payload (Message.setPayload payload)
  send := send
  ofBuildError := .build

/-- The transport for admissions on this link: where it is not for the link to
say whether it is ready, it is not asked. -/
def admissionTransport (link : Link) : Transport (Recorded Link) Draft BuildError Refusal :=
  match link.script.ready with
  | some _ => transport.recorded
  | none => transport.recorded.assumeReady

/-! ## Reports -/

/-- Which exchange to report. -/
inductive Selection where
  /-- The pending exchange at a place, counted round and round. -/
  | pending (place : Nat)
  /-- The exchange of the message at a place. -/
  | sent (place : Nat)
  /-- The latest exchange about this block. -/
  | block (num : UInt32)
  /-- None on the link: a completion without token, generation and number. -/
  | foreign

/-- The completion of the pending exchange at a place, which is pending no
longer. -/
def takePending (place : Nat) (link : Link) : Option (Exchange × Link) :=
  if h : place < link.pending.size then
    link.sent[link.pending[place]]?.map fun exchange =>
      (exchange, { link with pending := link.pending.eraseIdx place h })
  else
    none

/-- The completion of the selected exchange, and the link after it was selected;
or `none` if there is no such exchange. -/
def select (selection : Selection) (link : Link) : Option (Completion × Link) :=
  match selection with
  | .pending place =>
    (link.takePending (place % link.pending.size)).map fun (exchange, link) =>
      (exchange.completion, link)
  | .sent place => link.sent[place]?.map fun exchange => (exchange.completion, link)
  | .block num =>
    (link.sent.findRev? (·.completion.num = num)).map fun exchange => (exchange.completion, link)
  | .foreign => some (default, link)

end Link

end Blockwise
