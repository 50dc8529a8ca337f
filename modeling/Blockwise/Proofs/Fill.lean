import Mathlib.Logic.Relation
import Blockwise.Engine.Fill
/-!
# Filling, round by round

`Session.fill` is a loop.  Here its rounds are a relation between the states that
the loop goes through, so that what a round keeps is kept by the whole loop.

* `Filling` — a state of the loop
* `Filling.Round` — one round, in which one more block is taken
* `Filling.Stops` — how the loop stops at a state, and with what
* `Filling.exists_stops` — the loop makes some rounds, and stops
-/

namespace Blockwise

variable {ι σ μ β ε : Type} [Inspector ι]

namespace Session

variable {t : Transport σ μ β ε} {s : Session} {inspector : ι} {link link' : σ}
  {notices : Array Notice} {b : Block}

/-! ## The loop, unrolled once -/

theorem fill_of_not_canSend (hsend : ¬ s.window.CanSend) :
    s.fill t inspector link notices = ⟨.ok (), s, inspector, link, notices⟩ := by
  rw [fill, dif_neg hsend]

theorem fill_of_block?_none (hsend : s.window.CanSend) (hblock : s.block? s.window.next = none) :
    s.fill t inspector link notices = ⟨.ok (), s, inspector, link, notices⟩ := by
  rw [fill, dif_pos hsend]
  split
  · rfl
  · rename_i b h
    rw [hblock] at h
    cases h

theorem fill_of_deliver_error {e : DispatchError ε} (hsend : s.window.CanSend)
    (hblock : s.block? s.window.next = some b) (hdeliver : s.deliver t b link = .error e link') :
    s.fill t inspector link notices = ⟨.error e, s, inspector, link', notices⟩ := by
  rw [fill, dif_pos hsend]
  split
  · rename_i h
    rw [hblock] at h
    cases h
  · rename_i b' h
    obtain rfl : b' = b := Option.some.inj (h.symm.trans hblock)
    rw [hdeliver]

theorem fill_of_deliver_ok (hsend : s.window.CanSend)
    (hblock : s.block? s.window.next = some b) (hdeliver : s.deliver t b link = .ok () link') :
    s.fill t inspector link notices =
      fill t { s with window := s.window.dispatch } (Inspector.observe b.digest inspector) link'
        ((notices ++ Inspector.notices ι b.digest).push (.dispatched b.digest s.window.total)) := by
  rw [fill, dif_pos hsend]
  split
  · rename_i h
    rw [hblock] at h
    cases h
  · rename_i b' h
    obtain rfl : b' = b := Option.some.inj (h.symm.trans hblock)
    rw [hdeliver]

end Session

/-! ## Rounds -/

/-- A state that the loop goes through. -/
structure Filling (ι σ : Type) where
  session : Session
  inspector : ι
  link : σ
  notices : Array Notice

namespace Filling

/-- What the loop leaves behind, entered at this state. -/
def fill (t : Transport σ μ β ε) (x : Filling ι σ) : Filled ι σ ε :=
  x.session.fill t x.inspector x.link x.notices

/-- The state after block `b` was taken, which left the link as `link`. -/
def sent (x : Filling ι σ) (b : Block) (link : σ) : Filling ι σ where
  session := { x.session with window := x.session.window.dispatch }
  inspector := Inspector.observe b.digest x.inspector
  link
  notices := (x.notices ++ Inspector.notices ι b.digest).push
    (.dispatched b.digest x.session.window.total)

/-- One round: a block may go out, there is one, and it is taken. -/
inductive Round (t : Transport σ μ β ε) : Filling ι σ → Filling ι σ → Prop
  | sent {x : Filling ι σ} {b : Block} {link : σ} (hsend : x.session.window.CanSend)
      (hblock : x.session.block? x.session.window.next = some b)
      (hdeliver : x.session.deliver t b x.link = .ok () link) : Round t x (x.sent b link)

/-- The states that the loop goes through, entered at the first. -/
def Rounds (t : Transport σ μ β ε) : Filling ι σ → Filling ι σ → Prop :=
  Relation.ReflTransGen (Round t)

/-- How the loop stops at a state, and what it leaves behind there. -/
inductive Stops (t : Transport σ μ β ε) (x : Filling ι σ) : Filled ι σ ε → Prop
  /-- No block may go out. -/
  | full (hsend : ¬ x.session.window.CanSend) :
      Stops t x ⟨.ok (), x.session, x.inspector, x.link, x.notices⟩
  /-- There is no next block. -/
  | exhausted (hsend : x.session.window.CanSend)
      (hblock : x.session.block? x.session.window.next = none) :
      Stops t x ⟨.ok (), x.session, x.inspector, x.link, x.notices⟩
  /-- The next block is not taken. -/
  | failed {b : Block} {e : DispatchError ε} {link : σ} (hsend : x.session.window.CanSend)
      (hblock : x.session.block? x.session.window.next = some b)
      (hdeliver : x.session.deliver t b x.link = .error e link) :
      Stops t x ⟨.error e, x.session, x.inspector, link, x.notices⟩

variable {t : Transport σ μ β ε}

omit [Inspector ι] in
theorem Stops.session_eq {x : Filling ι σ} {f : Filled ι σ ε} (h : Stops t x f) :
    f.session = x.session := by
  cases h <;> rfl

omit [Inspector ι] in
/-- Where the loop ends well, it leaves its state as it is. -/
theorem Stops.eq_of_ok {x : Filling ι σ} {f : Filled ι σ ε} (h : Stops t x f)
    (hresult : f.result = .ok ()) : f = ⟨.ok (), x.session, x.inspector, x.link, x.notices⟩ := by
  cases h with
  | full => rfl
  | exhausted => rfl
  | failed => cases hresult

theorem Round.fill_eq {x y : Filling ι σ} (h : Round t x y) : x.fill t = y.fill t := by
  obtain ⟨hsend, hblock, hdeliver⟩ := h
  exact Session.fill_of_deliver_ok hsend hblock hdeliver

/-- Some rounds do not change what the loop leaves behind. -/
theorem Rounds.fill_eq {x y : Filling ι σ} (h : Rounds t x y) : x.fill t = y.fill t := by
  induction h with
  | refl => rfl
  | tail _ hround ih => exact ih.trans hround.fill_eq

theorem Stops.fill_eq {x : Filling ι σ} {f : Filled ι σ ε} (h : Stops t x f) : x.fill t = f := by
  cases h with
  | full hsend => exact Session.fill_of_not_canSend hsend
  | exhausted hsend hblock => exact Session.fill_of_block?_none hsend hblock
  | failed hsend hblock hdeliver => exact Session.fill_of_deliver_error hsend hblock hdeliver

/-- The loop makes some rounds, and stops. -/
theorem exists_stops (t : Transport σ μ β ε) (x : Filling ι σ) :
    ∃ y, Rounds t x y ∧ Stops t y (x.fill t) := by
  -- Every round sends a block that was not sent before.
  induction hn : x.session.window.unsent using Nat.strongRecOn generalizing x with
  | ind n ih =>
    by_cases hsend : x.session.window.CanSend
    · cases hblock : x.session.block? x.session.window.next with
      | none =>
        have hstops : Stops t x _ := .exhausted hsend hblock
        exact ⟨x, .refl, hstops.fill_eq.symm ▸ hstops⟩
      | some b =>
        cases hdeliver : x.session.deliver t b x.link with
        | error e link =>
          have hstops : Stops t x _ := .failed hsend hblock hdeliver
          exact ⟨x, .refl, hstops.fill_eq.symm ▸ hstops⟩
        | ok u link =>
          have hround : Round t x (x.sent b link) := .sent hsend hblock hdeliver
          have hless := Window.unsent_dispatch hsend
          obtain ⟨y, hrounds, hstops⟩ :=
            ih x.session.window.dispatch.unsent (by omega) (x.sent b link) rfl
          exact ⟨y, .head hround hrounds, hround.fill_eq ▸ hstops⟩
    · have hstops : Stops t x _ := .full hsend
      exact ⟨x, .refl, hstops.fill_eq.symm ▸ hstops⟩

/-- What holds on entry and is kept by every round holds wherever the loop
comes. -/
theorem Rounds.invariant {P : Filling ι σ → Prop} {x y : Filling ι σ} (h : Rounds t x y)
    (hx : P x) (hstep : ∀ {x y}, P x → Round t x y → P y) : P y := by
  induction h with
  | refl => exact hx
  | tail _ hround ih => exact hstep ih hround

end Filling

end Blockwise
