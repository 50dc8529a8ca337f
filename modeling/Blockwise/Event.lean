import Blockwise.Token.Basic
import Blockwise.Upload.Basic
/-!
# Events

Everything that moves an upload along: a caller asks for one or gives it up,
and the message layer reports how the exchange of a block ended.

Each block that is handed to the message layer goes with a `Completion`, and
comes back with it, exactly once, when its exchange is over.  The completion
says which session the block belongs to, so that a report for a session that is
over can be told from one for the session now.
-/

namespace Blockwise

/-- Which block of which session an exchange was about. -/
structure Completion where
  /-- The token of the session. -/
  token : Token
  /-- The position of the session among those admitted. -/
  generation : UInt32
  num : UInt32
deriving DecidableEq, Repr

instance : Inhabited Completion := ⟨⟨∅, 0, 0⟩⟩

/-- What moves an upload along. -/
inductive Event where
  /-- A caller asks for an upload. -/
  | admissionRequested (upload : Upload)
  /-- The server stored a block and wants more. -/
  | blockAckReceived (completion : Completion)
  /-- The server applied the whole body. -/
  | transferApplied (completion : Completion) (code : Code)
  /-- The server answered a block with any other code. -/
  | blockRejected (completion : Completion) (code : Code)
  /-- A block had no response. -/
  | blockTimedOut (completion : Completion)
  /-- The caller gives the active upload up. -/
  | cancelled

namespace Event

/-- What it means that an exchange ended with this status: the code of the
response, or `none` when there was no response. -/
def completed (completion : Completion) : (status : Option Code) → Event
  | none => blockTimedOut completion
  | some code =>
    match code.verdict with
    | .continued => blockAckReceived completion
    | .applied => transferApplied completion code
    | .rejected => blockRejected completion code

/-- The completion that the event is about, if it is about one. -/
def completion? : Event → Option Completion
  | blockAckReceived c | transferApplied c _ | blockRejected c _ | blockTimedOut c => some c
  | admissionRequested _ | cancelled => none

/-- However an exchange ended, the event is about its completion. -/
@[simp] theorem completion?_completed (c : Completion) (status : Option Code) :
    (completed c status).completion? = some c := by
  cases status with
  | none => rfl
  | some code =>
    rw [completed]
    split <;> rfl

end Event

end Blockwise
