import Blockwise.Code
/-!
# Request methods and content formats

Every block of an upload is sent by the same method, POST or PUT, and names the
same content format.
-/

namespace Blockwise

/-- The request method of an upload, in the order of the codes. -/
inductive Method where
  /-- POST, code 0.02: the server makes of the body what it likes. -/
  | post
  /-- PUT, code 0.03: the body becomes what is at the path. -/
  | put
deriving DecidableEq, Ord, Repr

namespace Method

instance : Inhabited Method := ⟨post⟩

/-- The code that a request by this method carries. -/
def code : Method → Code
  | post => ⟨0, 2⟩
  | put => ⟨0, 3⟩

instance : ToString Method where
  toString
    | post => "POST"
    | put => "PUT"

/-- The codes of the two methods. -/
theorem code_eq_iff {m : Method} {c : Code} :
    m.code = c ↔ m = post ∧ c = ⟨0, 2⟩ ∨ m = put ∧ c = ⟨0, 3⟩ := by
  cases m <;> simp [code, eq_comm]

example : post.code.dotted = "0.02" ∧ put.code.dotted = "0.03" := by decide +kernel

end Method

/-- A content format, by its registered number. -/
structure ContentFormat where
  number : UInt16
deriving DecidableEq, Repr

/-- Octets without further meaning, format 42, unless something else is said. -/
instance : Inhabited ContentFormat := ⟨⟨42⟩⟩

/-- Octets without further meaning. -/
def ContentFormat.octetStream : ContentFormat := ⟨42⟩

end Blockwise
