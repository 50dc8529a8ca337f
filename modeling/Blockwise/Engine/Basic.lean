import Blockwise.Inspector
import Blockwise.Session
import Blockwise.Token.Source
/-!
# Engines

An engine drives at most one upload at a time.  It performs no input or output
and never waits: each operation is a function of the engine and of a link to the
message layer, and gives back both, with a result and with what there is to be
told.

* `Slot` — the place of the one upload
* `Engine` — the slot, and what outlives the sessions that pass through it
* `Status` — what the slot holds, or how its last session ended
* `Reaction` — what an operation leaves behind
-/

namespace Blockwise

/-- The lifecycle of an engine's slot. -/
inductive Status where
  /-- No upload was started yet. -/
  | idle
  /-- An upload is in progress. -/
  | active
  /-- The most recent upload was applied by the server. -/
  | completed
  /-- The most recent upload ended without success. -/
  | failed
deriving DecidableEq, Ord, Repr

/-- The place of the one upload that an engine drives. -/
inductive Slot where
  /-- Free since the engine was made. -/
  | idle
  /-- Taken. -/
  | active (session : Session)
  /-- Free since an upload was applied. -/
  | completed
  /-- Free since an upload ended without success. -/
  | failed

namespace Slot

/-- The session in the slot, if there is one. -/
def session? : Slot → Option Session
  | active session => some session
  | idle | completed | failed => none

/-- What the slot holds, or how its last session ended. -/
def status : Slot → Status
  | idle => .idle
  | active _ => .active
  | completed => .completed
  | failed => .failed

theorem status_eq_active_iff {s : Slot} : s.status = .active ↔ s.session?.isSome := by
  cases s <;> simp [status, session?]

end Slot

/-- An engine with an inspector of type `ι`. -/
structure Engine (ι : Type) where
  /-- What uploads fall back to. -/
  config : Config
  /-- The place of the one upload. -/
  slot : Slot := .idle
  /-- Where the tokens of the sessions come from. -/
  source : Source
  /-- How many sessions were admitted, counted in 32 bits. -/
  generation : UInt32 := 0
  /-- What is shown the digest of every block that was accepted. -/
  inspector : ι

namespace Engine

variable {ι : Type}

/-- A fresh engine that draws its tokens from `stream`. -/
def ofStream (stream : WordStream) (config : Config) (inspector : ι) : Engine ι where
  config
  source := .ofStream stream
  inspector

/-- A fresh engine that draws its tokens from the configured seed. -/
def new (config : Config) (inspector : ι) : Engine ι :=
  ofStream (.ofSeed config.seed) config inspector

/-- The active session, if there is one. -/
def session? (e : Engine ι) : Option Session := e.slot.session?

/-- Whether an upload is running, or else how the most recent one ended. -/
def status (e : Engine ι) : Status := e.slot.status

/-- Whether an upload is running. -/
def isActive (e : Engine ι) : Bool := e.status = .active

/-- A snapshot of the active session. -/
def progress (e : Engine ι) : Option Progress := e.session?.map Session.progress

/-- The active session, if it owns the completion. -/
def owner? (e : Engine ι) (c : Completion) : Option Session := e.session?.filter (Session.Owns · c)

end Engine

/-- What an operation of an engine leaves behind. -/
structure Reaction (ι σ ρ : Type) where
  /-- What the operation answers. -/
  result : ρ
  /-- The engine after it. -/
  engine : Engine ι
  /-- The link after it. -/
  link : σ
  /-- What there is to be told, in order. -/
  notices : Array Notice := #[]

/-- The same reaction with another answer. -/
def Reaction.map {ι σ ρ τ : Type} (f : ρ → τ) (r : Reaction ι σ ρ) : Reaction ι σ τ :=
  { r with result := f r.result }

end Blockwise
