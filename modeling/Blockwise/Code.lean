/-!
# Codes

A message carries a code of two parts, a class and a detail, written `2.31`.
Requests have class 0; the class of a response tells success from failure.

What an upload makes of a response code is its `Verdict`: the block was stored
and more are awaited, the whole body was applied, or the transfer is over.
-/

namespace Blockwise

/-- The code of a request or a response. -/
structure Code where
  /-- The class: 0 for requests, 2 for success, 4 and 5 for failure. -/
  cls : UInt8
  /-- The detail within the class. -/
  detail : UInt8
deriving DecidableEq, Ord, Repr, Inhabited

namespace Code

/-- The code as text, `class.detail`, with at least two digits of detail. -/
def dotted (c : Code) : String :=
  if c.detail < 10 then s!"{c.cls}.0{c.detail}" else s!"{c.cls}.{c.detail}"

/-! ## The codes that a server answers a block with

Three of them carry a block-wise upload on; all others end it, and those that
are met in practice have names. -/

/-- The body was applied and made something new. -/
def created : Code := ⟨2, 1⟩

/-- The body was applied. -/
def changed : Code := ⟨2, 4⟩

/-- The block was stored, and the server awaits more. -/
def continued : Code := ⟨2, 31⟩

def badRequest : Code := ⟨4, 0⟩

def unauthorized : Code := ⟨4, 1⟩

def forbidden : Code := ⟨4, 3⟩

def notFound : Code := ⟨4, 4⟩

def methodNotAllowed : Code := ⟨4, 5⟩

/-- The server lacks blocks that it needs to go on. -/
def requestEntityIncomplete : Code := ⟨4, 8⟩

/-- The body is larger than the server takes. -/
def requestEntityTooLarge : Code := ⟨4, 13⟩

/-- The server does not take the content format. -/
def unsupportedContentFormat : Code := ⟨4, 15⟩

def internalServerError : Code := ⟨5, 0⟩

def serviceUnavailable : Code := ⟨5, 3⟩

example : continued.dotted = "2.31" := by decide +kernel

example : changed.dotted = "2.04" := by decide +kernel

end Code

/-- What an upload makes of the response to one block. -/
inductive Verdict where
  /-- The block was stored and the server wants the next one. -/
  | continued
  /-- The whole body was applied. -/
  | applied
  /-- The transfer is over. -/
  | rejected
deriving DecidableEq, Repr

/-- The verdict on a response code: 2.31 goes on, 2.04 and 2.01 apply the body,
and anything else rejects it. -/
def Code.verdict (c : Code) : Verdict :=
  if c = .continued then .continued
  else if c = .changed ∨ c = .created then .applied
  else .rejected

namespace Code

theorem verdict_eq_continued_iff {c : Code} : c.verdict = .continued ↔ c = continued := by
  by_cases h₁ : c = continued
  · simp [verdict, h₁]
  · by_cases h₂ : c = changed ∨ c = created <;> simp [verdict, h₁, h₂]

theorem verdict_eq_applied_iff {c : Code} : c.verdict = .applied ↔ c = changed ∨ c = created := by
  by_cases h₁ : c = continued
  · subst h₁; decide
  · by_cases h₂ : c = changed ∨ c = created <;> simp [verdict, h₁, h₂]

end Code

end Blockwise
