import Blockwise.Block.Basic
import Blockwise.Event
import Blockwise.Upload.Error
import Blockwise.Window
/-!
# Sessions

An upload that was admitted is a session: the upload with its open choices
filled in, a token and a generation that tell its exchanges from those of other
sessions, and a window that says how far the sending has come.

* `Session.ofUpload` — the session of an upload, or why there is none
* `Session.Owns` — whether a completion is about a block of this session that
  still waits for an answer
* `Session.progress` — a snapshot of the session
-/

namespace Blockwise

/-- An upload under way. -/
structure Session where
  /-- The path that every block goes to. -/
  path : String
  /-- What is sent. -/
  body : ByteArray
  /-- The content format that every block names. -/
  format : ContentFormat
  /-- The method that every block is sent by. -/
  method : Method
  /-- The size of every block but the last. -/
  size : Size
  /-- The token that all blocks share. -/
  token : Token
  /-- The position of the session among those admitted. -/
  generation : UInt32
  /-- How far the sending has come. -/
  window : Window

/-- A snapshot of a session. -/
structure Progress where
  /-- The token that all blocks share. -/
  token : Token
  /-- The number of blocks in the body. -/
  totalBlocks : UInt32
  /-- The number of the next block to send. -/
  nextToSend : UInt32
  /-- One past the highest block that the server has acknowledged. -/
  highestAcked : UInt32
  /-- How many blocks were sent and wait for an answer. -/
  inFlight : Nat
  /-- How many blocks may be sent and not yet acknowledged. -/
  window : UInt32
  /-- The number of octets in the body. -/
  totalBytes : Nat
  /-- The number of octets in the blocks that the server has acknowledged. -/
  ackedBytes : Nat
deriving DecidableEq

namespace Session

/-- The block size that an upload asks for, or else the configured one. -/
def chooseSize (upload : Upload) (config : Config) : Except Invalid Size :=
  match upload.blockSize with
  | none => .ok config.pacing.size
  | some bytes =>
    match Size.ofBytes? bytes with
    | some size => .ok size
    | none => .error (.blockSize bytes)

/-- The session of an upload under this token and generation.  Of several
unacceptable arguments the first is reported: the block size, the path, the
body, the window, the number of blocks. -/
def ofUpload (upload : Upload) (config : Config) (token : Token) (generation : UInt32) :
    Except Invalid Session := do
  let size ← chooseSize upload config
  let limit := upload.window.getD config.pacing.window
  -- Counted without a bound: whether the count fits is the last thing to check.
  let blocks := size.blocksFor upload.body.size
  if upload.target = "" then throw .emptyPath
  if upload.body.size = 0 then throw .emptyBody
  if limit = 0 then throw .window
  if blocks > Header.maxNum + 1 then throw (.tooManyBlocks blocks)
  return {
    path := upload.target
    body := upload.body
    format := upload.format
    method := upload.method.getD config.method
    size
    token
    generation
    window := { total := UInt32.ofNat blocks, limit } }

/-- Block `num` of the body. -/
def block? (s : Session) (num : UInt32) : Option Block := Block.cut? s.body s.size num

/-- What goes with block `num` to the message layer and comes back from it. -/
def completion (s : Session) (num : UInt32) : Completion where
  token := s.token
  generation := s.generation
  num

/-- The completion is about a block of this session that still waits for an
answer. -/
def Owns (s : Session) (c : Completion) : Prop :=
  c.token = s.token ∧ c.generation = s.generation ∧ c.num ∈ s.window.inFlight

instance (s : Session) (c : Completion) : Decidable (s.Owns c) := by
  unfold Owns
  infer_instance

/-- The number of octets in the blocks that were sent and wait for an answer. -/
def pendingBytes (s : Session) : Nat :=
  (s.window.inFlight.keys.map (s.size.blockLength s.body.size)).foldr (· + ·) 0

/-- The number of octets in the blocks that were sent. -/
def sentBytes (s : Session) : Nat := min (s.window.next.toNat * s.size.bytes) s.body.size

/-- A snapshot of the session.  What was sent and no longer waits for an answer
has been acknowledged. -/
def progress (s : Session) : Progress where
  token := s.token
  totalBlocks := s.window.total
  nextToSend := s.window.next
  highestAcked := s.window.highest
  inFlight := s.window.inFlight.size
  window := s.window.limit
  totalBytes := s.body.size
  ackedBytes := s.sentBytes - s.pendingBytes

/-- An upload has a session exactly when each of its arguments is acceptable. -/
theorem ofUpload_eq_ok_iff {u : Upload} {config : Config} {token : Token} {generation : UInt32}
    {s : Session} :
    ofUpload u config token generation = .ok s ↔
      ∃ size, chooseSize u config = .ok size ∧ u.target ≠ "" ∧ u.body.size ≠ 0 ∧
        u.window.getD config.pacing.window ≠ 0 ∧
        size.blocksFor u.body.size ≤ Header.maxNum + 1 ∧
        s = {
          path := u.target
          body := u.body
          format := u.format
          method := u.method.getD config.method
          size
          token
          generation
          window := { total := UInt32.ofNat (size.blocksFor u.body.size)
                      limit := u.window.getD config.pacing.window } } := by
  unfold ofUpload
  cases chooseSize u config with
  | error reason => simp [bind, Except.bind]
  | ok size =>
    by_cases h₁ : u.target = ""
    · simp [bind, Except.bind, h₁, throw, throwThe, MonadExceptOf.throw]
    by_cases h₂ : u.body.size = 0
    · simp [bind, Except.bind, h₁, h₂, throw, throwThe, MonadExceptOf.throw]
    by_cases h₃ : u.window.getD config.pacing.window = 0
    · simp [bind, Except.bind, h₁, h₂, h₃, throw, throwThe, MonadExceptOf.throw]
    by_cases h₄ : Header.maxNum + 1 < size.blocksFor u.body.size
    · have h₄' := Nat.not_le.2 h₄
      simp [bind, Except.bind, h₁, h₂, h₃, h₄, h₄', throw, throwThe, MonadExceptOf.throw]
    · have h₄' := Nat.not_lt.1 h₄
      simp [bind, Except.bind, h₁, h₂, h₃, h₄, h₄', pure, Except.pure, @eq_comm _ s]

/-- A session owns the completions of its own blocks that are out. -/
theorem owns_completion_iff {s : Session} {num : UInt32} :
    s.Owns (s.completion num) ↔ num ∈ s.window.inFlight := by
  simp [Owns, completion]

end Session

end Blockwise
