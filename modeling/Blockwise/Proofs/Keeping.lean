import Blockwise.Proofs.History
/-!
# What handing over keeps

An engine does two things to a link: it asks whether the transport is ready, and it hands
over blocks.  With every block that is taken it shows the inspector a digest, and it does
nothing else to the inspector.  So what these three steps keep of an inspector and a link
(`Transport.Keeps`) holds after every run (`Transport.Keeps.after`), however many sessions
it has and wherever they break off.
-/

namespace Blockwise

variable {ι σ μ β ε : Type} [Inspector ι]

/-- Asking whether the transport is ready and handing over a block keep `P`, whether the
block is taken or not. -/
structure Transport.Keeps (t : Transport σ μ β ε) (P : ι → σ → Prop) : Prop where
  ready : ∀ {i : ι} {link : σ}, P i link → P i (t.ready link).2
  taken : ∀ {i : ι} {link link' : σ} {s : Session} {num : UInt32} {b : Block}, P i link →
    s.block? num = some b → s.deliver t b link = .ok () link' →
    P (Inspector.observe b.digest i) link'
  refused : ∀ {i : ι} {link link' : σ} {s : Session} {b : Block} {e : DispatchError ε},
    P i link → s.deliver t b link = .error e link' → P i link'

namespace Transport.Keeps

variable {t : Transport σ μ β ε} {P : ι → σ → Prop}

theorem fill (h : t.Keeps P) {x : Filling ι σ} (hx : P x.inspector x.link) :
    P (x.fill t).inspector (x.fill t).link := by
  obtain ⟨y, hrounds, hstops⟩ := Filling.exists_stops t x
  have hy : P y.inspector y.link := by
    refine hrounds.invariant (P := fun y => P y.inspector y.link) hx ?_
    rintro x _ hx ⟨hsend, hblock, hdeliver⟩
    exact h.taken hx hblock hdeliver
  generalize x.fill t = f at hstops ⊢
  cases hstops with
  | full hsend => exact hy
  | exhausted hsend hblock => exact hy
  | failed hsend hblock hdeliver => exact h.refused hy hdeliver

theorem enters (h : t.Keeps P) {e : Engine ι} {link : σ} {event : Event}
    {x : Filling ι σ} (henters : Engine.Enters t e link event x) (he : P e.inspector link) :
    P x.inspector x.link := by
  cases henters with
  | admission hfree hready hsession => exact h.ready he
  | acknowledgement howner hlast => exact he

theorem handle (h : t.Keeps P) {e : Engine ι} {link : σ} (he : P e.inspector link)
    (event : Event) :
    P (Engine.handle t event e link).engine.inspector (Engine.handle t event e link).link := by
  have hcourse := Engine.handle_course t event e link
  generalize Engine.handle t event e link = r at hcourse ⊢
  have hfilled : ∀ {x f}, Engine.Enters t e link event x → x.fill t = f →
      P f.inspector f.link := by
    rintro x _ henters rfl
    exact h.fill (h.enters henters he)
  cases hcourse with
  | busy hactive => exact he
  | disconnected hfree hready => exact h.ready he
  | invalid hfree hready hsession => exact h.ready he
  | admitted henters hfill hresult => exact hfilled henters hfill
  | aborted henters hfill hresult => exact hfilled henters hfill
  | idle hfree => exact he
  | cancelled hactive => exact he
  | ignored hcompletion howner => exact he
  | overrun howner hlast => exact he
  | advanced henters hfill hresult => exact hfilled henters hfill
  | broken henters hfill hresult => exact hfilled henters hfill
  | applied howner => exact he
  | rejected howner => exact he
  | timedOut howner => exact he

/-- What handing over keeps, a run keeps. -/
theorem after (h : t.Keeps P) {e : Engine ι} {link : σ} (he : P e.inspector link)
    (ops : List Operation) :
    P (Engine.after t ops e link).1.inspector (Engine.after t ops e link).2 := by
  induction ops generalizing e link with
  | nil => exact he
  | cons op ops ih =>
    rw [Engine.after, Engine.perform_eq]
    exact ih (h.handle he op.event)

end Transport.Keeps

namespace History

/-- The link of a history is that of a run on the ledgered transport. -/
theorem run_ledgered (t : Transport σ μ β ε) (ops : List Operation) (h : History ι σ) :
    ((run t ops h).engine, (run t ops h).link) =
      Engine.after t.ledgered ops h.engine h.link := by
  induction ops generalizing h with
  | nil => rfl
  | cons op ops ih => exact ih (step t h op)

theorem keeps_run {t : Transport σ μ β ε} {P : ι → Ledgered σ → Prop} (hP : t.ledgered.Keeps P)
    {h : History ι σ} (hh : P h.engine.inspector h.link) (ops : List Operation) :
    P (run t ops h).engine.inspector (run t ops h).link := by
  have hafter := hP.after hh ops
  rw [← run_ledgered] at hafter
  exact hafter

end History

end Blockwise
