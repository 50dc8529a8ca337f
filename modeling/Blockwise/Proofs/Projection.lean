import Blockwise.Proofs.Course
/-!
# Transports over transports

A transport may keep more on its links than another one, and otherwise do what that one
does.  `Transport.Over` says so, for a view of the links that leaves out what is kept
besides.

**An engine cannot tell them apart.**  What an operation leaves behind on the transport
that keeps more is, seen through the view, what it leaves behind on the other
(`Engine.perform_over`).  So whatever is kept can be used to say what an engine does on any
transport at all.
-/

namespace Blockwise

variable {ι σ σ' μ μ' β ε ρ : Type}

/-- Seen through the view `π` of its links, the transport `t'` does what `t` does. -/
structure Transport.Over (t' : Transport σ' μ' β ε) (t : Transport σ μ β ε) (π : σ' → σ) :
    Prop where
  ready : ∀ l, t.ready (π l) = ((t'.ready l).1, π (t'.ready l).2)
  deliver_ok : ∀ {s : Session} {b : Block} {l l' : σ'},
    s.deliver t' b l = .ok () l' → s.deliver t b (π l) = .ok () (π l')
  deliver_error : ∀ {s : Session} {b : Block} {e : DispatchError ε} {l l' : σ'},
    s.deliver t' b l = .error e l' → s.deliver t b (π l) = .error e (π l')

/-! ## Seen through a view -/

def Filling.through (π : σ' → σ) (x : Filling ι σ') : Filling ι σ :=
  { x with link := π x.link }

def Filled.through (π : σ' → σ) (f : Filled ι σ' ε) : Filled ι σ ε :=
  { f with link := π f.link }

def Reaction.through (π : σ' → σ) (r : Reaction ι σ' ρ) : Reaction ι σ ρ :=
  { r with link := π r.link }

variable [Inspector ι] {t' : Transport σ' μ' β ε} {t : Transport σ μ β ε} {π : σ' → σ}

/-! ## Filling -/

namespace Filling

variable {x y : Filling ι σ'}

theorem Round.through (h : Round t' x y) (hover : t'.Over t π) :
    Round t (x.through π) (y.through π) := by
  obtain ⟨hsend, hblock, hdeliver⟩ := h
  exact .sent hsend hblock (hover.deliver_ok hdeliver)

omit [Inspector ι] in
theorem Stops.through {f : Filled ι σ' ε} (h : Stops t' x f) (hover : t'.Over t π) :
    Stops t (x.through π) (f.through π) := by
  cases h with
  | full hsend => exact .full hsend
  | exhausted hsend hblock => exact .exhausted hsend hblock
  | failed hsend hblock hdeliver => exact .failed hsend hblock (hover.deliver_error hdeliver)

theorem fill_over (hover : t'.Over t π) (x : Filling ι σ') :
    (x.fill t').through π = (x.through π).fill t := by
  obtain ⟨y, hrounds, hstops⟩ := exists_stops t' x
  have hrounds' : Rounds t (x.through π) (y.through π) :=
    hrounds.lift (Filling.through π) fun _ _ hround => hround.through hover
  exact (hrounds'.fill_eq.trans (hstops.through hover).fill_eq).symm

end Filling

/-! ## Operations -/

namespace Engine

theorem start_over (hover : t'.Over t π) (upload : Upload) (e : Engine ι) (l : σ') :
    (start t' upload e l).through π = start t upload e (π l) := by
  have hask := hover.ready l
  cases hslot : e.session? with
  | some s =>
    rw [start, start, hslot]
    rfl
  | none =>
    cases hready : (t'.ready l).1 with
    | false =>
      have hready' : (t.ready (π l)).1 = false := by rw [hask, hready]
      rw [start_of_not_ready hslot hready, start_of_not_ready hslot hready', hask]
      rfl
    | true =>
      have hready' : (t.ready (π l)).1 = true := by rw [hask, hready]
      rw [start_of_ready hslot hready, start_of_ready hslot hready', hask]
      cases e.sessionOf upload with
      | error reason => rfl
      | ok s =>
        dsimp only
        -- Seen through the view, the filling loop is entered in the same state.
        have hfill : (e.opening s (π (t'.ready l).2)).fill t =
            ((e.opening s (t'.ready l).2).fill t').through π :=
          (Filling.fill_over hover (e.opening s (t'.ready l).2)).symm
        rw [hfill]
        cases hresult : ((e.opening s (t'.ready l).2).fill t').result <;>
          simp only [Filled.through, hresult] <;> rfl

theorem acknowledged_over (hover : t'.Over t π) (s : Session) (num : UInt32) (e : Engine ι)
    (l : σ') : (acknowledged t' s num e l).through π = acknowledged t s num e (π l) := by
  by_cases hlast : s.window.IsLast num
  · rw [acknowledged, acknowledged, if_pos hlast, if_pos hlast]
    rfl
  · rw [acknowledged_of_not_isLast hlast, acknowledged_of_not_isLast hlast]
    dsimp only
    have hfill : (e.advancing s num (π l)).fill t = ((e.advancing s num l).fill t').through π :=
      (Filling.fill_over hover (e.advancing s num l)).symm
    rw [hfill]
    cases hresult : ((e.advancing s num l).fill t').result <;>
      simp only [Filled.through, hresult] <;> rfl

theorem handle_over (hover : t'.Over t π) (event : Event) (e : Engine ι) (l : σ') :
    (handle t' event e l).through π = handle t event e (π l) := by
  cases event with
  | admissionRequested upload =>
    rw [handle, handle, ← start_over hover]
    rfl
  | cancelled =>
    rw [handle, handle, cancel, cancel]
    cases e.session? <;> rfl
  | blockAckReceived c =>
    rw [handle, handle, forOwner, forOwner]
    cases e.owner? c with
    | none => rfl
    | some s => exact acknowledged_over hover s c.num e l
  | transferApplied c code =>
    rw [handle, handle, forOwner, forOwner]
    cases e.owner? c <;> rfl
  | blockRejected c code =>
    rw [handle, handle, forOwner, forOwner]
    cases e.owner? c <;> rfl
  | blockTimedOut c =>
    rw [handle, handle, forOwner, forOwner]
    cases e.owner? c <;> rfl

theorem perform_over (hover : t'.Over t π) (op : Operation) (e : Engine ι) (l : σ') :
    (perform t' op e l).through π = perform t op e (π l) := by
  rw [perform_eq, perform_eq, ← handle_over hover]
  rfl

/-- The same run, seen through the view. -/
theorem after_over (hover : t'.Over t π) (ops : List Operation) (e : Engine ι) (l : σ') :
    after t ops e (π l) = ((after t' ops e l).1, π (after t' ops e l).2) := by
  induction ops generalizing e l with
  | nil => rfl
  | cons op ops ih =>
    rw [after, after, ← perform_over hover]
    exact ih (perform t' op e l).engine (perform t' op e l).link

end Engine

end Blockwise
