import Blockwise.Engine.Basic
import Blockwise.Transport
/-!
# Filling the window

An engine sends as many blocks as the window of its session allows, one after
the other, and stops at the first that the message layer fails to take.

**One block.**  `Session.deliver` cuts nothing and counts nothing: it makes a
message, fills it and sends it, and says whether the message layer failed
before or while sending.

**All blocks.**  `Session.fill` goes on until the window is full or the body is
used up.  It ends because every round sends a block that was not sent before.
-/

namespace Blockwise

variable {ι σ μ β ε : Type}

/-- Hands one block of the session to the message layer. -/
def Session.deliver (s : Session) (t : Transport σ μ β ε) (b : Block) :
    EStateM (DispatchError ε) σ Unit := do
  let message ← (t.create s.method s.token).adaptExcept .resourceExhausted
  let message ← (t.fill s.path s.format b.header b.payload message).adaptExcept
    fun e => .resourceExhausted (t.ofBuildError e)
  (t.send message (s.completion b.header.num)).adaptExcept .sendFailed

/-- What filling a window leaves behind. -/
structure Filled (ι σ ε : Type) where
  /-- Whether the message layer took every block that it was handed. -/
  result : Except (DispatchError ε) Unit
  /-- The session with the blocks that were taken. -/
  session : Session
  /-- The inspector, which was shown each of them. -/
  inspector : ι
  link : σ
  /-- What there is to be told, in order. -/
  notices : Array Notice

/-- Sends as many blocks as the window allows, and adds what there is to be told
to `notices`. -/
def Session.fill [Inspector ι] (t : Transport σ μ β ε) (s : Session) (inspector : ι) (link : σ)
    (notices : Array Notice) : Filled ι σ ε :=
  if _ : s.window.CanSend then
    match s.block? s.window.next with
    -- The number of blocks follows from the length of the body, so this does not arise.
    | none => ⟨.ok (), s, inspector, link, notices⟩
    | some b =>
      match s.deliver t b link with
      | .error e link => ⟨.error e, s, inspector, link, notices⟩
      | .ok _ link =>
        let digest := b.digest
        fill t { s with window := s.window.dispatch }
          (Inspector.observe digest inspector)
          link
          (notices ++ Inspector.notices ι digest |>.push (.dispatched digest s.window.total))
  else
    ⟨.ok (), s, inspector, link, notices⟩
termination_by s.window.unsent
decreasing_by
  have := Window.unsent_dispatch (w := s.window) ‹_›
  omega

end Blockwise
