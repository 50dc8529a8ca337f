import Blockwise.Proofs.History
/-!
# Transports that accept everything

A transport is `Accepting` when it is ready on every link, and refuses nothing.
With such a transport the filling loop never fails, so a valid upload that finds
the slot free is admitted (`Engine.handle_request_of_accepting`), and its first
window is sent.

`Transport.sink` is one: it takes every message and keeps none.
-/

namespace Blockwise

variable {ι σ μ β ε : Type}

/-- The transport is ready on every link, and every call on it succeeds. -/
structure Transport.Accepting (t : Transport σ μ β ε) : Prop where
  ready : ∀ l, (t.ready l).1 = true
  create : ∀ method token l, ∃ m l', t.create method token l = .ok m l'
  setPath : ∀ path m l, ∃ m' l', t.setPath path m l = .ok m' l'
  setFormat : ∀ format m l, ∃ m' l', t.setFormat format m l = .ok m' l'
  setBlock : ∀ header m l, ∃ m' l', t.setBlock header m l = .ok m' l'
  setPayload : ∀ payload m l, ∃ m' l', t.setPayload payload m l = .ok m' l'
  send : ∀ m completion l, ∃ l', t.send m completion l = .ok () l'

/-- The transport that takes every message, and keeps none. -/
def Transport.sink : Transport Unit Unit Empty Empty where
  create _ _ := pure ()
  setPath _ _ := pure ()
  setFormat _ _ := pure ()
  setBlock _ _ := pure ()
  setPayload _ _ := pure ()
  send _ _ := pure ()
  ofBuildError := id

theorem Transport.sink_accepting : Transport.sink.Accepting where
  ready _ := rfl
  create _ _ _ := ⟨_, _, rfl⟩
  setPath _ _ _ := ⟨_, _, rfl⟩
  setFormat _ _ _ := ⟨_, _, rfl⟩
  setBlock _ _ _ := ⟨_, _, rfl⟩
  setPayload _ _ _ := ⟨_, _, rfl⟩
  send _ _ _ := ⟨_, rfl⟩

/-- What succeeds on the link succeeds beside the ledger. -/
theorem Ledgered.exists_lift_bind {α γ : Type} {x : EStateM ε σ α} {f : α → γ} {l : Ledgered σ}
    (h : ∃ a link, x l.link = .ok a link) :
    ∃ b l', (do let a ← Ledgered.lift x; return f a : EStateM ε (Ledgered σ) γ) l = .ok b l' := by
  obtain ⟨a, link, h⟩ := h
  refine ⟨f a, { l with link }, ?_⟩
  simp only [Ledgered.lift, bind, EStateM.bind, pure, EStateM.pure, h]

namespace Transport.Accepting

variable {t : Transport σ μ β ε}

theorem fill (ht : t.Accepting) (path : String) (format : ContentFormat) (header : Header)
    (payload : ByteArray) (m : μ) (l : σ) :
    ∃ m' l', t.fill path format header payload m l = .ok m' l' := by
  obtain ⟨m₁, l₁, h₁⟩ := ht.setPath path m l
  obtain ⟨m₂, l₂, h₂⟩ := ht.setFormat format m₁ l₁
  obtain ⟨m₃, l₃, h₃⟩ := ht.setBlock header m₂ l₂
  obtain ⟨m₄, l₄, h₄⟩ := ht.setPayload payload m₃ l₃
  refine ⟨m₄, l₄, ?_⟩
  simp only [Transport.fill, bind, EStateM.bind, h₁, h₂, h₃, h₄]

/-- Every block that is handed over is taken. -/
theorem deliver (ht : t.Accepting) (s : Session) (b : Block) (l : σ) :
    ∃ l', s.deliver t b l = .ok () l' := by
  obtain ⟨m₁, l₁, h₁⟩ := ht.create s.method s.token l
  obtain ⟨m₂, l₂, h₂⟩ := ht.fill s.path s.format b.header b.payload m₁ l₁
  obtain ⟨l₃, h₃⟩ := ht.send m₂ (s.completion b.header.num) l₂
  refine ⟨l₃, ?_⟩
  simp only [Session.deliver, bind, EStateM.bind, EStateM.adaptExcept, h₁, h₂, h₃]

/-- The ledger refuses nothing either. -/
theorem ledgered (ht : t.Accepting) : t.ledgered.Accepting where
  ready l := ht.ready l.link
  create method token l := Ledgered.exists_lift_bind (ht.create method token l.link)
  setPath path m l := Ledgered.exists_lift_bind (ht.setPath path m.message l.link)
  setFormat format m l := Ledgered.exists_lift_bind (ht.setFormat format m.message l.link)
  setBlock header m l := Ledgered.exists_lift_bind (ht.setBlock header m.message l.link)
  setPayload payload m l := Ledgered.exists_lift_bind (ht.setPayload payload m.message l.link)
  send m completion l := by
    obtain ⟨l', h⟩ := ht.send m.message completion l.link
    refine ⟨⟨l', l.taken ++ [{ m.contents with completion }]⟩, ?_⟩
    simp only [Transport.ledgered, Ledgered.lift, bind, EStateM.bind, h]
    rfl

variable [Inspector ι]

/-- The filling loop does not fail. -/
theorem result_fill (ht : t.Accepting) (x : Filling ι σ) : (x.fill t).result = .ok () := by
  obtain ⟨y, -, hstops⟩ := Filling.exists_stops t x
  generalize x.fill t = f at hstops
  cases hstops with
  | full hsend => rfl
  | exhausted hsend hblock => rfl
  | failed hsend hblock hdeliver =>
    obtain ⟨l', htaken⟩ := ht.deliver y.session _ y.link
    rw [hdeliver] at htaken
    cases htaken

end Transport.Accepting

namespace Engine

variable [Inspector ι] {t : Transport σ μ β ε} {e : Engine ι} {upload : Upload} {c : Completion}
  {s : Session}

/-- A valid upload that finds the slot free is admitted, with its first window
sent. -/
theorem handle_request_of_accepting (ht : t.Accepting) (hfree : e.session? = none)
    (hvalid : (e.admission upload).Valid) (l : σ) :
    ∃ x, Enters t e l (.admissionRequested upload) x ∧
      handle t (.admissionRequested upload) e l =
        ⟨none, { e.opened with
            inspector := (x.fill t).inspector, slot := .active (x.fill t).session },
          (x.fill t).link, (x.fill t).notices⟩ := by
  have hcourse := handle_course t (.admissionRequested upload) e l
  generalize handle t (.admissionRequested upload) e l = r at hcourse ⊢
  cases hcourse with
  | busy hactive => cases hfree.symm.trans hactive
  | disconnected _ hready => cases hready.symm.trans (ht.ready l)
  | invalid _ _ hsession =>
    cases hsession.symm.trans (sessionOf_eq_ok_iff.2 ⟨hvalid, rfl⟩)
  | admitted henters hfill hresult =>
    subst hfill
    exact ⟨_, henters, rfl⟩
  | aborted henters hfill hresult =>
    rw [← hfill, ht.result_fill] at hresult
    cases hresult
  | ignored hcompletion howner => cases hcompletion

/-- An acknowledgement of a block that is out, and is not the last, makes the
session send on. -/
theorem handle_ack_of_accepting (ht : t.Accepting) (howner : e.owner? c = some s)
    (hlast : ¬ s.window.IsLast c.num) (l : σ) :
    ∃ x, Enters t e l (.blockAckReceived c) x ∧
      handle t (.blockAckReceived c) e l =
        ⟨none, { e with inspector := (x.fill t).inspector, slot := .active (x.fill t).session },
          (x.fill t).link, (x.fill t).notices⟩ := by
  have hcourse := handle_course t (.blockAckReceived c) e l
  generalize handle t (.blockAckReceived c) e l = r at hcourse ⊢
  cases hcourse with
  | ignored hcompletion hnone =>
    cases hcompletion
    cases howner.symm.trans hnone
  | overrun howner' hlast' =>
    cases howner.symm.trans howner'
    exact absurd hlast' hlast
  | advanced henters hfill hresult =>
    subst hfill
    exact ⟨_, henters, rfl⟩
  | broken henters hfill hresult =>
    rw [← hfill, ht.result_fill] at hresult
    cases hresult

end Engine

/-! ## A sample -/

/-- Three blocks, of which two may be under way at once. -/
def Upload.sample : Upload where
  path := "fw"
  body := ⟨Array.replicate 40 7⟩
  blockSize := some 16
  window := some 2

theorem Upload.sample_valid (e : Engine ι) : (e.admission .sample).Valid where
  path_ne := by
    show ∃ c ∈ "fw".toList, ¬ Path.IsSlash c
    refine ⟨'f', ?_, ?_⟩ <;> decide
  body_ne := by
    show ByteArray.size ⟨Array.replicate 40 7⟩ ≠ 0
    decide
  size_permitted := by
    rintro bytes ⟨⟩
    exact ⟨⟨0⟩, rfl⟩
  limit_ne := by
    show (2 : UInt32) ≠ 0
    decide
  total_le := by
    show Size.blocksFor ((Size.ofBytes? 16).getD e.config.pacing.size) 40 ≤ Header.maxNum + 1
    have hsize : Size.ofBytes? 16 = some ⟨0⟩ := by decide
    rw [hsize, Option.getD_some]
    decide

end Blockwise
