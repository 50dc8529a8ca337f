import Blockwise.Block.Size
import Blockwise.Method
import Blockwise.Path
/-!
# Uploads and their defaults

An upload asks for a body to be sent to a path.  Whatever it leaves open is
filled in from a configuration.

* `Config` — the defaults, and the seed that the tokens are drawn from
* `Upload` — what a caller asks for
-/

namespace Blockwise

/-- How large the blocks are and how many of them may be under way. -/
structure Pacing where
  /-- The size of every block but the last. -/
  size : Size := .largest
  /-- How many blocks may be sent and not yet acknowledged.  One is lock-step. -/
  window : UInt32 := 1
deriving DecidableEq, Ord, Repr, Inhabited

/-- What uploads fall back to. -/
structure Config where
  /-- The seed that the tokens of the sessions are drawn from. -/
  seed : UInt64 := 0
  /-- The method of an upload that names none. -/
  method : Method := .post
  /-- The pacing of an upload that sets none. -/
  pacing : Pacing := {}
deriving DecidableEq, Repr, Inhabited

/-- A request to upload `body` to `path`. -/
structure Upload where
  /-- Where to.  Slashes at either end are ignored. -/
  path : String
  /-- What to send. -/
  body : ByteArray
  /-- The content format that every block names. -/
  format : ContentFormat := .octetStream
  /-- The number of octets in a block, which has to be a permitted size. -/
  blockSize : Option Nat := none
  /-- How many blocks may be sent and not yet acknowledged. -/
  window : Option UInt32 := none
  /-- The method to send the blocks by. -/
  method : Option Method := none

/-- The path that the upload goes to. -/
def Upload.target (u : Upload) : String := Path.trim u.path

end Blockwise
