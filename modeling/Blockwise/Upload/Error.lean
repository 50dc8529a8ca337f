import Blockwise.Code
import Blockwise.Token.Basic
/-!
# How an upload ends

An upload is refused before anything is sent, or its first blocks cannot be
sent, or it is admitted and later has exactly one `Outcome`: a `Report` of the
body that the server applied, or an error.

**Causes, not texts.**  Each error is a value that says what went wrong; its
wording is in one function per type.  Errors of the message layer are carried
along untouched, in a type parameter `ε`, and a caller says how to write them.

* `Invalid` — which argument of an upload is unacceptable
* `DispatchError` — how the message layer failed to take a block
* `Cause` — why an admitted upload ended without success
* `UploadError` — any of these, and the two refusals that need no reason
-/

namespace Blockwise

/-- Which argument of an upload is unacceptable. -/
inductive Invalid where
  /-- The path has no characters but slashes. -/
  | emptyPath
  /-- There is nothing to send. -/
  | emptyBody
  /-- The block size is not permitted. -/
  | blockSize (bytes : Nat)
  /-- No block may ever be under way. -/
  | window
  /-- The body needs more blocks than a block option can number. -/
  | tooManyBlocks (blocks : Nat)
deriving DecidableEq, Ord, Repr

/-- How the message layer failed to take a block. -/
inductive DispatchError (ε : Type) where
  /-- It could not create or fill the message. -/
  | resourceExhausted (e : ε)
  /-- It refused to send the message. -/
  | sendFailed (e : ε)
deriving DecidableEq, Repr

/-- Why an upload that had been admitted ended without success. -/
inductive Cause (ε : Type) where
  /-- A block had no response. -/
  | timeout
  /-- The server answered a block with a code that ends the upload. -/
  | remoteRejected (code : Code)
  /-- The message layer failed to take a block. -/
  | dispatch (e : DispatchError ε)
  /-- The caller gave up. -/
  | cancelled
deriving DecidableEq, Repr

/-- What can go wrong with an upload. -/
inductive UploadError (ε : Type) where
  /-- An argument is unacceptable, and nothing was sent. -/
  | invalidArgument (reason : Invalid)
  /-- The message layer has no connection, and nothing was sent. -/
  | notReady
  /-- Another upload is active and was left alone. -/
  | transferInProgress
  /-- The message layer failed to take a block of the first window. -/
  | dispatch (e : DispatchError ε)
  /-- The upload was running and has ended. -/
  | failed (cause : Cause ε)
deriving DecidableEq, Repr

/-- What is to be said of an upload that the server applied. -/
structure Report where
  /-- The token that all its blocks shared. -/
  token : Token
  /-- The number of blocks in the body. -/
  blocks : UInt32
  /-- The number of octets in the body. -/
  bytes : Nat
  /-- The code by which the server applied it. -/
  code : Code
deriving DecidableEq, Repr

/-- How an admitted upload ended. -/
abbrev Outcome (ε : Type) := Except (UploadError ε) Report

/-! ## Wording -/

/-- The reason in words. -/
def Invalid.message : Invalid → String
  | emptyPath => "path is empty"
  | emptyBody => "body is empty"
  | blockSize bytes => s!"{bytes} is not a permitted block size"
  | window => "window must be at least 1"
  | tooManyBlocks blocks => s!"{blocks} blocks cannot be numbered by Block1"

section Wording

variable {ε : Type} (write : ε → String)

/-- The failure in words, the message layer's own error written by `write`. -/
def DispatchError.message : DispatchError ε → String
  | resourceExhausted e => s!"could not create message: {write e}"
  | sendFailed e => s!"could not send message: {write e}"

/-- The cause in words. -/
def Cause.message : Cause ε → String
  | timeout => "no response to a block"
  | remoteRejected code => s!"server responded {code.dotted}"
  | dispatch e => e.message write
  | cancelled => "cancelled"

/-- The error in words. -/
def UploadError.message : UploadError ε → String
  | invalidArgument reason => s!"invalid argument: {reason.message}"
  | notReady => "no server connection"
  | transferInProgress => "another upload is in progress"
  | dispatch e => e.message write
  | failed cause => s!"upload failed: {cause.message write}"

end Wording

/-- Whether the error was raised before any block could be sent. -/
def UploadError.isAdmission {ε : Type} : UploadError ε → Bool
  | invalidArgument _ | notReady | transferInProgress => true
  | dispatch _ | failed _ => false

end Blockwise
