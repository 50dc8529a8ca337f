import Blockwise.Proofs.Projection
/-!
# A ledger of what was taken

A transport is abstract: its messages and its link are of types that the engine
knows nothing of.  To say what an engine sends, a message is accompanied by what
was set on it, and a link by the messages that it took.

`Transport.ledgered` does both for any transport.  It refuses what the transport
refuses and nothing else, so an engine behaves on the ledgered transport as it
does on the transport itself (`Engine.perform_ledgered`).  What the ledger gains
by handing over one block is stated by `Session.deliver_ledgered`.
-/

namespace Blockwise

/-- What was set on a message.  Paths add up, and everything else replaces what
was there. -/
structure Contents where
  method : Method
  token : Token
  /-- The paths that were set, in order. -/
  paths : List String := []
  format : Option ContentFormat := none
  header : Option Header := none
  payload : ByteArray := ByteArray.empty

/-- A message that was taken: what was set on it, and the completion that it
went with. -/
structure Parcel extends Contents where
  completion : Completion

/-- Whether the message says that more blocks follow. -/
def Parcel.more (p : Parcel) : Bool := p.header.any (·.more)

/-- A message accompanied by what was set on it. -/
structure Labelled (μ : Type) where
  message : μ
  contents : Contents

/-- A link accompanied by the messages that it took, in order. -/
structure Ledgered (σ : Type) where
  link : σ
  taken : List Parcel := []

variable {ι σ μ β ε α : Type}

/-- The computation on the link, which leaves the ledger alone. -/
def Ledgered.lift (x : EStateM ε σ α) : EStateM ε (Ledgered σ) α := fun l =>
  match x l.link with
  | .ok a link => .ok a { l with link }
  | .error e link => .error e { l with link }

/-- The transport `t`, with the messages that it takes entered into a ledger. -/
def Transport.ledgered (t : Transport σ μ β ε) :
    Transport (Ledgered σ) (Labelled μ) β ε where
  ready := fun l => ((t.ready l.link).1, { l with link := (t.ready l.link).2 })
  create method token := do
    let message ← Ledgered.lift (t.create method token)
    return ⟨message, { method, token }⟩
  setPath path m := do
    let message ← Ledgered.lift (t.setPath path m.message)
    return ⟨message, { m.contents with paths := m.contents.paths ++ [path] }⟩
  setFormat format m := do
    let message ← Ledgered.lift (t.setFormat format m.message)
    return ⟨message, { m.contents with format }⟩
  setBlock header m := do
    let message ← Ledgered.lift (t.setBlock header m.message)
    return ⟨message, { m.contents with header }⟩
  setPayload payload m := do
    let message ← Ledgered.lift (t.setPayload payload m.message)
    return ⟨message, { m.contents with payload }⟩
  send m completion := do
    Ledgered.lift (t.send m.message completion)
    modify fun l => { l with taken := l.taken ++ [{ m.contents with completion }] }
  ofBuildError := t.ofBuildError

/-- The message that carries a block of the session. -/
def Session.parcel (s : Session) (b : Block) : Parcel where
  method := s.method
  token := s.token
  paths := [s.path]
  format := s.format
  header := b.header
  payload := b.payload
  completion := s.completion b.header.num

/-- Filling a message leaves the ledger alone, and labels the message with all
four parts. -/
theorem Transport.fill_ledgered (t : Transport σ μ β ε) (path : String) (format : ContentFormat)
    (header : Header) (payload : ByteArray) (m : Labelled μ) (l : Ledgered σ) :
    t.ledgered.fill path format header payload m l =
      match t.fill path format header payload m.message l.link with
      | .ok message link =>
        .ok ⟨message, { m.contents with
          paths := m.contents.paths ++ [path], format, header, payload }⟩ { l with link }
      | .error e link => .error e { l with link } := by
  simp only [Transport.fill, Transport.ledgered, Ledgered.lift, bind, EStateM.bind, pure,
    EStateM.pure]
  cases t.setPath path m.message l.link with
  | error e link => rfl
  | ok message link =>
    dsimp only
    cases t.setFormat format message link with
    | error e link => rfl
    | ok message link =>
      dsimp only
      cases t.setBlock header message link with
      | error e link => rfl
      | ok message link =>
        dsimp only
        cases t.setPayload payload message link <;> rfl

/-- Handing over a block enters its message into the ledger, if it is taken. -/
theorem Session.deliver_ledgered (s : Session) (t : Transport σ μ β ε) (b : Block)
    (l : Ledgered σ) :
    s.deliver t.ledgered b l =
      match s.deliver t b l.link with
      | .ok _ link => .ok () ⟨link, l.taken ++ [s.parcel b]⟩
      | .error e link => .error e { l with link } := by
  simp only [Session.deliver, bind, EStateM.bind, EStateM.adaptExcept, Transport.fill_ledgered]
  simp only [Transport.ledgered, Ledgered.lift, bind, EStateM.bind, pure, EStateM.pure]
  cases t.create s.method s.token l.link with
  | error e link => rfl
  | ok message link =>
    dsimp only
    cases t.fill s.path s.format b.header b.payload message link with
    | error e link => rfl
    | ok message link =>
      dsimp only
      cases t.send message (s.completion b.header.num) link <;> rfl

/-! ## The ledger grows by what is sent -/

section

variable {t : Transport σ μ β ε}

/-- The ledger after a block was handed over and taken. -/
theorem Session.deliver_ledgered_eq_ok {s : Session} {b : Block} {l l' : Ledgered σ}
    (h : s.deliver t.ledgered b l = .ok () l') :
    s.deliver t b l.link = .ok () l'.link ∧ l'.taken = l.taken ++ [s.parcel b] := by
  rw [Session.deliver_ledgered] at h
  split at h
  · rename_i u link hdeliver
    cases h
    exact ⟨hdeliver, rfl⟩
  · cases h

/-- The ledger after a block was handed over and not taken. -/
theorem Session.deliver_ledgered_eq_error {s : Session} {b : Block} {e : DispatchError ε}
    {l l' : Ledgered σ} (h : s.deliver t.ledgered b l = .error e l') :
    s.deliver t b l.link = .error e l'.link ∧ l'.taken = l.taken := by
  rw [Session.deliver_ledgered] at h
  split at h
  · cases h
  · rename_i e' link hdeliver
    cases h
    exact ⟨hdeliver, rfl⟩

variable [Inspector ι]

/-- A round enters the message of the next block into the ledger. -/
theorem Filling.Round.taken_eq {x y : Filling ι (Ledgered σ)} (h : Round t.ledgered x y) :
    ∃ b, x.session.block? x.session.window.next = some b ∧
      y.link.taken = x.link.taken ++ [x.session.parcel b] := by
  obtain ⟨hsend, hblock, hdeliver⟩ := h
  exact ⟨_, hblock, (Session.deliver_ledgered_eq_ok hdeliver).2⟩

omit [Inspector ι] in
/-- Where the loop stops, it enters nothing into the ledger. -/
theorem Filling.Stops.taken_eq {x : Filling ι (Ledgered σ)} {f : Filled ι (Ledgered σ) ε}
    (h : Stops t.ledgered x f) : f.link.taken = x.link.taken := by
  cases h with
  | full hsend => rfl
  | exhausted hsend hblock => rfl
  | failed hsend hblock hdeliver => exact (Session.deliver_ledgered_eq_error hdeliver).2

/-- The loop only adds to the ledger. -/
theorem Filling.taken_prefix_fill (x : Filling ι (Ledgered σ)) :
    x.link.taken <+: (x.fill t.ledgered).link.taken := by
  obtain ⟨y, hrounds, hstops⟩ := exists_stops t.ledgered x
  rw [hstops.taken_eq]
  refine hrounds.invariant (P := fun y => x.link.taken <+: y.link.taken) (List.prefix_refl _)
    fun hx hround => ?_
  obtain ⟨b, -, htaken⟩ := hround.taken_eq
  rw [htaken]
  exact hx.trans (List.prefix_append _ _)

end

/-! ## The ledger changes nothing

What an operation leaves behind on the ledgered transport is, without the ledger,
what it leaves behind on the transport itself. -/

/-- Forgets the ledger. -/
def Reaction.forget {ρ : Type} (r : Reaction ι (Ledgered σ) ρ) : Reaction ι σ ρ :=
  { r with link := r.link.link }

theorem Transport.ledgered_over (t : Transport σ μ β ε) : t.ledgered.Over t Ledgered.link where
  ready _ := rfl
  deliver_ok h := (Session.deliver_ledgered_eq_ok h).1
  deliver_error h := (Session.deliver_ledgered_eq_error h).1

namespace Engine

variable [Inspector ι]

theorem handle_ledgered (t : Transport σ μ β ε) (event : Event) (e : Engine ι)
    (l : Ledgered σ) :
    (handle t.ledgered event e l).forget = handle t event e l.link :=
  handle_over t.ledgered_over event e l

/-- On the ledgered transport an engine behaves as on the transport itself. -/
theorem perform_ledgered (t : Transport σ μ β ε) (op : Operation) (e : Engine ι)
    (l : Ledgered σ) :
    (perform t.ledgered op e l).forget = perform t op e l.link :=
  perform_over t.ledgered_over op e l

end Engine

end Blockwise
