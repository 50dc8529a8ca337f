import Blockwise.Proofs.Admission
/-!
# A receiver

The other end of an upload: it takes the blocks of one body after the other, and
applies the body once the last has come.  The first block of a body makes it begin
anew, under the token of that block.  Whatever else does not come in turn, or under
another token, is ignored.

A receiver knows nothing of sessions.  That what it has is the beginning of the body
of one of them is `Receiver.Holds`, and the messages that an admission settles keep
it (`Receiver.receive_parcel`).
-/

namespace Blockwise

/-- A receiver of blocks. -/
structure Receiver where
  /-- The token that the blocks so far came under. -/
  token? : Option Token := none
  /-- The octets so far. -/
  body : ByteArray := .empty
  /-- The number of the block that comes next. -/
  next : ℕ := 0
  /-- The bodies that were applied, in order, each with the token that it came under. -/
  applied : List (Token × ByteArray) := []

namespace Receiver

/-- The receiver begins anew, under this token. -/
def restart (x : Receiver) (token : Token) : Receiver :=
  { x with token? := some token, body := .empty, next := 0 }

/-- The receiver after the payload of the block that came next. -/
def append (x : Receiver) (payload : ByteArray) : Receiver :=
  { x with body := x.body ++ payload, next := x.next + 1 }

/-- The receiver after it applied what it has, and keeps none of it. -/
def apply (x : Receiver) (token : Token) : Receiver :=
  { x with applied := x.applied ++ [(token, x.body)], body := .empty }

/-- What a receiver makes of the block that came next, and the code that it answers. -/
def take (x : Receiver) (token : Token) (payload : ByteArray) (more : Bool) : Receiver × Code :=
  let x := x.append payload
  if more then (x, .continued) else (x.apply token, .changed)

/-- What a receiver makes of a message, and the code that it answers. -/
def receive (x : Receiver) (p : Parcel) : Receiver × Code :=
  match p.header with
  | none => (x, .requestEntityIncomplete)
  | some header =>
    let x := if header.num = 0 then x.restart p.token else x
    if x.token? = some p.token ∧ header.num.toNat = x.next then
      x.take p.token p.payload header.more
    else (x, .requestEntityIncomplete)

/-- What the receiver has is the beginning of the body of this admission, up to the
block that comes next.  After the last block it has nothing any more. -/
structure Holds (x : Receiver) (a : Admission) : Prop where
  token?_eq : x.token? = some a.token
  next_le : x.next ≤ a.total
  body_eq : x.next < a.total → x.body = assemble ((a.parcels x.next).map (·.payload))

variable {x y : Receiver} {a : Admission} {i : ℕ} {code : Code}

theorem holds_restart (x : Receiver) (a : Admission) : (x.restart a.token).Holds a where
  token?_eq := rfl
  next_le := Nat.zero_le _
  body_eq _ := rfl

/-- The receiver took block `i` of the admission, where `applied` had been applied
before. -/
inductive Takes (a : Admission) (i : ℕ) (applied : List (Token × ByteArray)) :
    Receiver → Code → Prop
  | stored {y : Receiver} (hholds : y.Holds a) (hnext : y.next = i + 1)
      (happlied : y.applied = applied) : Takes a i applied y .continued
  | completed {y : Receiver} (hholds : y.Holds a) (hnext : y.next = i + 1)
      (htotal : i + 1 = a.total) (happlied : y.applied = applied ++ [(a.token, a.upload.body)]) :
      Takes a i applied y .changed

/-- A receiver that has the beginning of the body takes the next block, and the last
one completes the body. -/
theorem Holds.take (hx : x.Holds a) (hlt : x.next < a.total) :
    Takes a x.next x.applied
      (x.take a.token (a.parcel x.next).payload (decide (x.next + 1 ≠ a.total))).1
      (x.take a.token (a.parcel x.next).payload (decide (x.next + 1 ≠ a.total))).2 := by
  have hbody : (x.append (a.parcel x.next).payload).body =
      assemble ((a.parcels (x.next + 1)).map (·.payload)) := by
    rw [Admission.parcels_succ, List.map_append, List.map_singleton, assemble_concat,
      ← hx.body_eq hlt]
    rfl
  unfold Receiver.take
  by_cases hlast : x.next + 1 = a.total
  · rw [decide_eq_false (not_not.2 hlast)]
    refine .completed ⟨hx.token?_eq, hlt, fun h => absurd hlast h.ne⟩ rfl hlast ?_
    rw [hlast, Admission.assemble_parcels] at hbody
    show x.applied ++ [(a.token, (x.append _).body)] = _
    rw [hbody]
  · rw [decide_eq_true hlast]
    exact .stored ⟨hx.token?_eq, hlt, fun _ => hbody⟩ rfl rfl

/-- A receiver takes or ignores the blocks of an admission, if what it has under the
token of that is the beginning of its body. -/
theorem receive_parcel (ha : a.Valid) (hi : i < a.total)
    (hx : x.token? = some a.token → x.Holds a) :
    x.receive (a.parcel i) = (x, .requestEntityIncomplete) ∨
      Takes a i x.applied (x.receive (a.parcel i)).1 (x.receive (a.parcel i)).2 := by
  have hnum : (UInt32.ofNat i).toNat = i := ha.toNat_num hi
  have hreceive : x.receive (a.parcel i) =
      let x := if UInt32.ofNat i = 0 then x.restart a.token else x
      if x.token? = some a.token ∧ (UInt32.ofNat i).toNat = x.next then
        x.take a.token (a.parcel i).payload (decide (i + 1 ≠ a.total))
      else (x, .requestEntityIncomplete) := rfl
  rw [hnum] at hreceive
  by_cases hzero : UInt32.ofNat i = 0
  · -- The first block makes the receiver begin anew, and so comes next.
    obtain rfl : i = 0 := by rw [← hnum, hzero]; rfl
    rw [if_pos hzero] at hreceive
    dsimp only at hreceive
    rw [if_pos ⟨rfl, rfl⟩] at hreceive
    rw [hreceive]
    exact .inr ((x.holds_restart a).take hi)
  · rw [if_neg hzero] at hreceive
    dsimp only at hreceive
    by_cases hturn : x.token? = some a.token ∧ i = x.next
    · rw [if_pos hturn] at hreceive
      obtain ⟨htoken, rfl⟩ := hturn
      rw [hreceive]
      exact .inr ((hx htoken).take hi)
    · rw [if_neg hturn] at hreceive
      exact .inl hreceive

end Receiver

end Blockwise
