import Blockwise.Engine.Step
/-!
# Runs of an engine

Whatever may be asked of an engine is an `Operation`, and a run is a list of
operations performed one after the other on one engine and one link.

* `Engine.perform` — one operation
* `Engine.run` — a list of operations, with all that they leave behind
-/

namespace Blockwise

/-- What may be asked of an engine. -/
inductive Operation where
  /-- Asks for an upload. -/
  | start (upload : Upload)
  /-- Asks for an upload of `body` to `path` with everything else as configured. -/
  | startUpload (path : String) (body : ByteArray) (format : ContentFormat)
  /-- Hands in an event. -/
  | handle (event : Event)
  /-- Reports the end of an exchange. -/
  | complete (completion : Completion) (status : Option Code)
  /-- Gives the active upload up. -/
  | cancel

/-- What an operation answers. -/
inductive Answer (ε : Type) where
  /-- Whether an upload was admitted. -/
  | admission (result : Except (UploadError ε) Unit)
  /-- The outcome of an upload, if there is one now. -/
  | outcome (result : Option (Outcome ε))

namespace Engine

variable {ι σ μ β ε : Type} [Inspector ι]

/-- Performs one operation. -/
def perform (t : Transport σ μ β ε) (op : Operation) (e : Engine ι) (link : σ) :
    Reaction ι σ (Answer ε) :=
  match op with
  | .start upload => (start t upload e link).map .admission
  | .startUpload path body format => (startUpload t path body format e link).map .admission
  | .handle event => (handle t event e link).map .outcome
  | .complete completion status => (complete t completion status e link).map .outcome
  | .cancel => (cancel e link).map .outcome

/-- Performs operations one after the other.  The reaction to each is listed, in
order. -/
def run (t : Transport σ μ β ε) : List Operation → Engine ι → σ → List (Reaction ι σ (Answer ε))
  | [], _, _ => []
  | op :: ops, e, link =>
    let r := perform t op e link
    r :: run t ops r.engine r.link

end Engine

end Blockwise
