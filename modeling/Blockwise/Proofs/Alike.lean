import Blockwise.Link.Scripted
import Blockwise.Proofs.Ledger
/-!
# Transports that treat names alike

A session is told from others by a token and a generation, its `Name`.  Everything that
goes to a transport or comes back from it can be put under another name, and is otherwise
the same.

**Two runs.**  To compare a run on one transport with a run on another, links are related
by some `R` and messages by some `M`.  The transports are alike for two names
(`Transport.Alike`) if corresponding calls, one under the first name and one under the
second, are both accepted or both refused with the same error, and what is left behind is
related again.  Handing over a block is then the same on both sides
(`Transport.Alike.deliver`), and so is the record of its calls
(`Transport.Alike.recorded`).  Scripted links are the example that the notion is made for:
they accept and refuse by position (`Link.alike`).
-/

namespace Blockwise

variable {σ μ β ε ε' α α' : Type}

/-! ## Names -/

/-- What tells the exchanges of a session from those of other sessions. -/
structure Name where
  token : Token
  generation : UInt32
deriving DecidableEq

instance : Inhabited Name := ⟨⟨∅, 0⟩⟩

/-- The completion for the same block of the session of this name. -/
def Completion.under (n : Name) (c : Completion) : Completion where
  token := n.token
  generation := n.generation
  num := c.num

/-- The same call for the session of this name. -/
def Call.under (n : Name) : Call → Call
  | .create method _ => .create method n.token
  | .send c => .send (c.under n)
  | .ready => .ready
  | .setPath path => .setPath path
  | .setFormat format => .setFormat format
  | .setBlock header => .setBlock header
  | .setPayload payload => .setPayload payload

/-- The session as it would be under this name. -/
def Session.under (n : Name) (s : Session) : Session :=
  { s with token := n.token, generation := n.generation }

/-! ## Coupled computations -/

/-- Two computations both succeed, or both fail with the same error. -/
inductive SameResult (R : σ → σ → Prop) (A : α → α → Prop) :
    EStateM.Result ε σ α → EStateM.Result ε σ α → Prop
  | ok {a a' : α} {link link' : σ} (hlink : R link link') (hvalue : A a a') :
      SameResult R A (.ok a link) (.ok a' link')
  | error {e : ε} {link link' : σ} (hlink : R link link') :
      SameResult R A (.error e link) (.error e link')

/-- Run on related links, the computations have the same result, related links and
related values. -/
def Coupled (R : σ → σ → Prop) (A : α → α → Prop) (x x' : EStateM ε σ α) : Prop :=
  ∀ link link', R link link' → SameResult R A (x link) (x' link')

namespace Coupled

variable {R : σ → σ → Prop} {A : α → α → Prop} {B : α' → α' → Prop} {x x' : EStateM ε σ α}

theorem pure {a a' : α} (h : A a a') : Coupled R A (ε := ε) (Pure.pure a) (Pure.pure a') :=
  fun _ _ hlink => .ok hlink h

theorem bind {f f' : α → EStateM ε σ α'} (hx : Coupled R A x x')
    (hf : ∀ {a a'}, A a a' → Coupled R B (f a) (f' a')) : Coupled R B (x >>= f) (x' >>= f') := by
  intro link link' hlink
  have hresult := hx link link' hlink
  show SameResult R B (EStateM.bind x f link) (EStateM.bind x' f' link')
  unfold EStateM.bind
  generalize x link = r at hresult ⊢
  generalize x' link' = r' at hresult ⊢
  cases hresult with
  | ok hlink hvalue => exact hf hvalue _ _ hlink
  | error hlink => exact .error hlink

theorem adaptExcept (hx : Coupled R A x x') (g : ε → ε') :
    Coupled R A (x.adaptExcept g) (x'.adaptExcept g) := by
  intro link link' hlink
  have hresult := hx link link' hlink
  unfold EStateM.adaptExcept
  generalize x link = r at hresult ⊢
  generalize x' link' = r' at hresult ⊢
  cases hresult with
  | ok hlink hvalue => exact .ok hlink hvalue
  | error hlink => exact .error hlink

end Coupled

/-! ## Transports -/

/-- Of two transports each accepts a call under the name `n` or `n'`, respectively, if the
other does, and refuses it otherwise with the same error. -/
structure Transport.Alike (t t' : Transport σ μ β ε) (R : σ → σ → Prop) (M : μ → μ → Prop)
    (n n' : Name) : Prop where
  ready : ∀ {link link' : σ}, R link link' →
    (t.ready link).1 = (t'.ready link').1 ∧ R (t.ready link).2 (t'.ready link').2
  create : ∀ method, Coupled R M (t.create method n.token) (t'.create method n'.token)
  setPath : ∀ {m m' : μ}, M m m' → ∀ path, Coupled R M (t.setPath path m) (t'.setPath path m')
  setFormat : ∀ {m m' : μ}, M m m' → ∀ format,
    Coupled R M (t.setFormat format m) (t'.setFormat format m')
  setBlock : ∀ {m m' : μ}, M m m' → ∀ header,
    Coupled R M (t.setBlock header m) (t'.setBlock header m')
  setPayload : ∀ {m m' : μ}, M m m' → ∀ payload,
    Coupled R M (t.setPayload payload m) (t'.setPayload payload m')
  send : ∀ {m m' : μ}, M m m' → ∀ c : Completion,
    Coupled R (fun _ _ => True) (t.send m (c.under n)) (t'.send m' (c.under n'))
  ofBuildError_eq : t.ofBuildError = t'.ofBuildError

namespace Transport.Alike

variable {t t' : Transport σ μ β ε} {R : σ → σ → Prop} {M : μ → μ → Prop} {n n' : Name}

theorem fill (h : t.Alike t' R M n n') {m m' : μ} (hm : M m m') (path : String)
    (format : ContentFormat) (header : Header) (payload : ByteArray) :
    Coupled R M (t.fill path format header payload m) (t'.fill path format header payload m') := by
  unfold Transport.fill
  refine (h.setPath hm path).bind fun hm => ?_
  refine (h.setFormat hm format).bind fun hm => ?_
  refine (h.setBlock hm header).bind fun hm => ?_
  exact h.setPayload hm payload

/-- A block of a session is handed over alike under both names. -/
theorem deliver (h : t.Alike t' R M n n') (s : Session) (b : Block) :
    Coupled R (fun _ _ => True) ((s.under n).deliver t b) ((s.under n').deliver t' b) := by
  unfold Session.deliver
  refine ((h.create s.method).adaptExcept _).bind fun hm => ?_
  rw [h.ofBuildError_eq]
  refine ((h.fill hm s.path s.format b.header b.payload).adaptExcept _).bind fun hm => ?_
  exact (h.send hm (s.completion b.header.num)).adaptExcept _

end Transport.Alike

/-! ## With a record of the calls -/

/-- Since the records `base` and `base'`, the same calls were made under `n` and under
`n'`. -/
structure Recorded.Pair (R : σ → σ → Prop) (n n' : Name) (base base' : List Call)
    (l l' : Recorded σ) : Prop where
  link : R l.link l'.link
  calls : ∃ calls : List Call, l.calls.toList = base ++ calls.map (Call.under n) ∧
    l'.calls.toList = base' ++ calls.map (Call.under n')

namespace Recorded

variable {R : σ → σ → Prop} {A : α → α → Prop} {n n' : Name} {base base' : List Call}

/-- One more call on both sides. -/
theorem Pair.push {l l' : Recorded σ} {link link' : σ} (h : Pair R n n' base base' l l')
    (hlink : R link link') (call : Call) :
    Pair R n n' base base' ⟨link, l.calls.push (call.under n)⟩
      ⟨link', l'.calls.push (call.under n')⟩ where
  link := hlink
  calls := by
    obtain ⟨calls, hcalls, hcalls'⟩ := h.calls
    refine ⟨calls ++ [call], ?_, ?_⟩
    · rw [Array.toList_push, hcalls, List.map_append, List.append_assoc]
      rfl
    · rw [Array.toList_push, hcalls', List.map_append, List.append_assoc]
      rfl

theorem coupled_note {x x' : EStateM ε σ α} (hx : Coupled R A x x') (call : Call) :
    Coupled (Pair R n n' base base') A (note (call.under n) x) (note (call.under n') x') := by
  intro l l' hl
  have hresult := hx l.link l'.link hl.link
  unfold note
  dsimp only
  generalize x l.link = r at hresult ⊢
  generalize x' l'.link = r' at hresult ⊢
  cases hresult with
  | ok hlink hvalue => exact .ok (hl.push hlink call) hvalue
  | error hlink => exact .error (hl.push hlink call)

end Recorded

variable {t t' : Transport σ μ β ε} {R : σ → σ → Prop} {M : μ → μ → Prop} {n n' : Name}

/-- Transports that are alike are so with their records. -/
theorem Transport.Alike.recorded (h : t.Alike t' R M n n') (base base' : List Call) :
    t.recorded.Alike t'.recorded (Recorded.Pair R n n' base base') M n n' where
  ready hl := ⟨(h.ready hl.link).1, hl.push (h.ready hl.link).2 .ready⟩
  create method := Recorded.coupled_note (h.create method) (.create method default)
  setPath hm path := Recorded.coupled_note (h.setPath hm path) (.setPath path)
  setFormat hm format := Recorded.coupled_note (h.setFormat hm format) (.setFormat format)
  setBlock hm header := Recorded.coupled_note (h.setBlock hm header) (.setBlock header)
  setPayload hm payload := Recorded.coupled_note (h.setPayload hm payload) (.setPayload payload)
  send hm c := Recorded.coupled_note (h.send hm c) (.send c)
  ofBuildError_eq := h.ofBuildError_eq

/-! ## With a ledger -/

/-- The links are related, and took the same number of messages. -/
structure Ledgered.Pair (R : σ → σ → Prop) (l l' : Ledgered σ) : Prop where
  link : R l.link l'.link
  length_eq : l.taken.length = l'.taken.length

theorem Ledgered.coupled_lift {A : α → α → Prop} {x x' : EStateM ε σ α} (hx : Coupled R A x x') :
    Coupled (Pair R) A (lift x) (lift x') := by
  intro l l' hl
  have hresult := hx l.link l'.link hl.link
  unfold lift
  generalize x l.link = r at hresult ⊢
  generalize x' l'.link = r' at hresult ⊢
  cases hresult with
  | ok hlink hvalue => exact .ok ⟨hlink, hl.length_eq⟩ hvalue
  | error hlink => exact .error ⟨hlink, hl.length_eq⟩

/-- Transports that are alike are so with their ledgers. -/
theorem Transport.Alike.ledgered (h : t.Alike t' R M n n') :
    t.ledgered.Alike t'.ledgered (Ledgered.Pair R) (fun m m' => M m.message m'.message) n n' where
  ready hl := ⟨(h.ready hl.link).1, (h.ready hl.link).2, hl.length_eq⟩
  create method := (Ledgered.coupled_lift (h.create method)).bind fun hm => .pure hm
  setPath hm path := (Ledgered.coupled_lift (h.setPath hm path)).bind fun hm => .pure hm
  setFormat hm format := (Ledgered.coupled_lift (h.setFormat hm format)).bind fun hm => .pure hm
  setBlock hm header := (Ledgered.coupled_lift (h.setBlock hm header)).bind fun hm => .pure hm
  setPayload hm payload :=
    (Ledgered.coupled_lift (h.setPayload hm payload)).bind fun hm => .pure hm
  send hm c := by
    refine (Ledgered.coupled_lift (h.send hm c)).bind fun _ => ?_
    intro l l' hl
    refine .ok ⟨hl.link, ?_⟩ trivial
    simp only [List.length_append, hl.length_eq, List.length_singleton]
  ofBuildError_eq := h.ofBuildError_eq

/-! ## Scripted links -/

/-- The links follow the same script and have come equally far in it. -/
structure Link.InStep (l l' : Link) : Prop where
  script_eq : l.script = l'.script
  created_eq : l.created = l'.created
  offered_eq : l.offered = l'.offered

/-- Scripted links refuse by position, and so alike under all names. -/
theorem Link.alike (n n' : Name) :
    transport.Alike transport InStep (fun d d' => d.position = d'.position) n n' := by
  have hset : ∀ part (f : Message → Message) {d d' : Draft}, d.position = d'.position →
      Coupled InStep (fun d d' => d.position = d'.position) (set part f d) (set part f d') := by
    rintro part f ⟨position, message⟩ ⟨_, message'⟩ ⟨⟩
    rintro ⟨script, created, offered, sent, pending⟩ ⟨_, _, _, sent', pending'⟩ ⟨⟨⟩, ⟨⟩, ⟨⟩⟩
    unfold set
    dsimp only
    split
    · exact .error ⟨rfl, rfl, rfl⟩
    · exact .ok ⟨rfl, rfl, rfl⟩ rfl
  refine ⟨?_, ?_, fun hd path => hset _ _ hd, fun hd format => hset _ _ hd,
    fun hd header => hset _ _ hd, fun hd payload => hset _ _ hd, ?_, rfl⟩
  · intro l l' hl
    exact ⟨congrArg (·.ready.getD true) hl.script_eq, hl⟩
  · rintro method ⟨script, created, offered, sent, pending⟩ ⟨_, _, _, sent', pending'⟩
      ⟨⟨⟩, ⟨⟩, ⟨⟩⟩
    show SameResult _ _ (create method _ _) (create method _ _)
    unfold create
    dsimp only
    split
    · exact .error ⟨rfl, rfl, rfl⟩
    · exact .ok ⟨rfl, rfl, rfl⟩ rfl
  · rintro ⟨position, message⟩ ⟨_, message'⟩ ⟨⟩ c
    rintro ⟨script, created, offered, sent, pending⟩ ⟨_, _, _, sent', pending'⟩ ⟨⟨⟩, ⟨⟩, ⟨⟩⟩
    show SameResult _ _ (send _ _ _) (send _ _ _)
    unfold send
    dsimp only
    split
    · exact .error ⟨rfl, rfl, rfl⟩
    · exact .ok ⟨rfl, rfl, rfl⟩ trivial

end Blockwise
