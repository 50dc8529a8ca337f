import Blockwise.Block.Header
import Blockwise.Event
import Blockwise.Method
/-!
# Transports

The message layer that uploads are sent through: it owns the connection to the
server, retransmits messages and matches responses to them.  A `Transport` is
what an upload needs of it, seven operations on a link of type `σ`.

**Operations that may refuse.**  Creating a message, filling it and sending it
are computations on the link that may fail with an error, and the link is kept
either way: a call that is refused may still have left its mark.  Filling a
message fails with errors `β` of its own, which the transport turns into errors
`ε`.

For every message that `send` accepts, the transport later reports the end of
the exchange exactly once, with the completion that went with the message.

* `Transport` — the operations
* `Transport.fill` — a message filled by the four setters, in order
* `Transport.recorded` — the same transport, keeping a record of the calls
-/

namespace Blockwise

/-- What uploads need of a message layer with links `σ`, messages `μ`, errors
`β` in filling a message, and errors `ε`. -/
structure Transport (σ μ β ε : Type) where
  /-- Whether there is a connection that messages can be sent on right now. -/
  ready : StateM σ Bool := pure true
  /-- An empty confirmable request. -/
  create : Method → Token → EStateM ε σ μ
  /-- The message with the path set, from a path with slashes. -/
  setPath : String → μ → EStateM β σ μ
  /-- The message with the content format set. -/
  setFormat : ContentFormat → μ → EStateM β σ μ
  /-- The message with the block option set. -/
  setBlock : Header → μ → EStateM β σ μ
  /-- The message with the payload set. -/
  setPayload : ByteArray → μ → EStateM β σ μ
  /-- Takes the message to be sent, and the completion to be given back once its
  exchange is over. -/
  send : μ → Completion → EStateM ε σ Unit
  /-- A failure to fill a message, as an error of the transport. -/
  ofBuildError : β → ε

namespace Transport

variable {σ μ β ε : Type}

/-- The message with path, content format, block option and payload set, in this
order. -/
def fill (t : Transport σ μ β ε) (path : String) (format : ContentFormat) (header : Header)
    (payload : ByteArray) (message : μ) : EStateM β σ μ := do
  let message ← t.setPath path message
  let message ← t.setFormat format message
  let message ← t.setBlock header message
  t.setPayload payload message

/-- The transport that is always ready, and otherwise like `t`. -/
def assumeReady (t : Transport σ μ β ε) : Transport σ μ β ε :=
  { t with ready := pure true }

end Transport

/-! ## Records of calls -/

/-- One call of a transport's operations, with what the engine passed to it.  Of
the message itself only what is set in this very call is shown. -/
inductive Call where
  | ready
  | create (method : Method) (token : Token)
  | setPath (path : String)
  | setFormat (format : ContentFormat)
  | setBlock (header : Header)
  | setPayload (payload : ByteArray)
  | send (completion : Completion)

/-- A link with a record of the calls made on it, the refused ones included. -/
structure Recorded (σ : Type) where
  link : σ
  /-- The calls so far, in order. -/
  calls : Array Call := #[]

namespace Recorded

variable {σ ε α : Type}

/-- The computation `x` on the link, entered into the record as `call` whether
or not it succeeds. -/
def note (call : Call) (x : EStateM ε σ α) : EStateM ε (Recorded σ) α :=
  fun ⟨link, calls⟩ =>
    match x link with
    | .ok a link => .ok a ⟨link, calls.push call⟩
    | .error e link => .error e ⟨link, calls.push call⟩

end Recorded

/-- The transport `t`, with its calls entered into a record. -/
def Transport.recorded {σ μ β ε : Type} (t : Transport σ μ β ε) :
    Transport (Recorded σ) μ β ε where
  ready := fun ⟨link, calls⟩ =>
    let (answer, link) := t.ready link
    (answer, ⟨link, calls.push .ready⟩)
  create method token := Recorded.note (.create method token) (t.create method token)
  setPath path m := Recorded.note (.setPath path) (t.setPath path m)
  setFormat format m := Recorded.note (.setFormat format) (t.setFormat format m)
  setBlock header m := Recorded.note (.setBlock header) (t.setBlock header m)
  setPayload payload m := Recorded.note (.setPayload payload) (t.setPayload payload m)
  send m completion := Recorded.note (.send completion) (t.send m completion)
  ofBuildError := t.ofBuildError

end Blockwise
