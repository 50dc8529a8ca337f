import Blockwise.Link.Scripted
import Blockwise.Proofs.Accepting
import Blockwise.Proofs.Keeping
/-!
# What an inspector sees, and that it does not matter

An inspector is shown the digest of a block once the transport took its message, and an
engine never asks it for anything.  Two things follow, for any transport.

**It sees what was sent.**  The digest of a block says of its message what the message
itself says (`Session.digest?_parcel`), so the digests collected are those of the messages in
the ledger, in the same order, and of no others: a message that is refused is in neither.

**It does not matter.**  Left bare of the inspector and of what is told, an engine reacts
with any inspector as it does with none (`Engine.run_bare`).  Two states of the filling loop
that differ in nothing else go through the same rounds (`Filling.bare_fill`).
-/

namespace Blockwise

variable {ι κ σ μ β ε ρ : Type}

/-! ## What is seen -/

/-- The diagnostic record of a message that carries a block, from what was set on it. -/
def Parcel.digest? (p : Parcel) : Option Digest :=
  p.header.map fun h =>
    { num := h.num
      offset := h.num.toNat * h.size.bytes
      len := p.payload.size
      more := h.more
      crc := Checksum.crc32 p.payload }

/-- The digest of a block is that of its message. -/
theorem Session.digest?_parcel {s : Session} {num : UInt32} {b : Block}
    (h : s.block? num = some b) : (s.parcel b).digest? = some b.digest := by
  rw [Block.digest, Block.offset_of_cut? h]
  rfl

/-- The digests are those of the messages that were taken, in order. -/
def Ledgered.Shown (digests : Array Digest) (l : Ledgered σ) : Prop :=
  digests.toList.map some = l.taken.map Parcel.digest?

theorem Transport.keeps_shown (t : Transport σ μ β ε) : t.ledgered.Keeps Ledgered.Shown where
  ready h := h
  taken {digests l l' s num b} h hblock hdeliver := by
    have htaken := (Session.deliver_ledgered_eq_ok hdeliver).2
    show (digests.push b.digest).toList.map some = _
    rw [Array.toList_push, List.map_append, h, htaken, List.map_append, List.map_singleton,
      List.map_singleton, Session.digest?_parcel hblock]
  refused {digests l l' s b e} h hdeliver := by
    have htaken := (Session.deliver_ledgered_eq_error hdeliver).2
    unfold Ledgered.Shown at h ⊢
    rw [htaken, h]

/-! ## Without the inspector -/

def Filling.bare (x : Filling ι σ) : Filling Unit σ where
  session := x.session
  inspector := ()
  link := x.link
  notices := #[]

def Filled.bare (f : Filled ι σ ε) : Filled Unit σ ε where
  result := f.result
  session := f.session
  inspector := ()
  link := f.link
  notices := #[]

def Engine.bare (e : Engine ι) : Engine Unit where
  config := e.config
  slot := e.slot
  source := e.source
  generation := e.generation
  inspector := ()

/-- The reaction without the inspector, and without what there is to be told. -/
def Reaction.bare (r : Reaction ι σ ρ) : Reaction Unit σ ρ where
  result := r.result
  engine := r.engine.bare
  link := r.link

theorem Reaction.bare_map {τ : Type} (f : ρ → τ) (r : Reaction ι σ ρ) :
    (r.map f).bare = r.bare.map f := rfl

/-- Results that are the same when bare differ in the inspector and in what is told alone. -/
theorem Filled.eq_of_bare {f : Filled ι σ ε} {f' : Filled κ σ ε} (h : f.bare = f'.bare) :
    f' = { f' with result := f.result, session := f.session, link := f.link } := by
  obtain ⟨result, session, inspector, link, notices⟩ := f
  obtain ⟨result', session', inspector', link', notices'⟩ := f'
  cases h
  rfl

variable [Inspector ι] [Inspector κ] {t : Transport σ μ β ε}

namespace Filling

variable {x y : Filling ι σ} {x' : Filling κ σ}

theorem Round.exists_bare (h : Round t x y) (hx : x.bare = x'.bare) :
    ∃ y', Round t x' y' ∧ y.bare = y'.bare := by
  obtain ⟨session, inspector, link, notices⟩ := x'
  cases hx
  obtain ⟨hsend, hblock, hdeliver⟩ := h
  exact ⟨_, .sent hsend hblock hdeliver, rfl⟩

omit [Inspector ι] [Inspector κ] in
theorem Stops.exists_bare {f : Filled ι σ ε} (h : Stops t x f) (hx : x.bare = x'.bare) :
    ∃ f', Stops t x' f' ∧ f.bare = f'.bare := by
  obtain ⟨session, inspector, link, notices⟩ := x'
  cases hx
  cases h with
  | full hsend => exact ⟨_, .full hsend, rfl⟩
  | exhausted hsend hblock => exact ⟨_, .exhausted hsend hblock, rfl⟩
  | failed hsend hblock hdeliver => exact ⟨_, .failed hsend hblock hdeliver, rfl⟩

/-- States that differ in nothing but the inspector and what was told are left alike. -/
theorem bare_fill (hx : x.bare = x'.bare) : (x.fill t).bare = (x'.fill t).bare := by
  obtain ⟨y, hrounds, hstops⟩ := exists_stops t x
  generalize x.fill t = f at hstops ⊢
  induction hrounds using Relation.ReflTransGen.head_induction_on generalizing x' with
  | refl =>
    obtain ⟨f', hstops', hf⟩ := hstops.exists_bare hx
    rw [hf, hstops'.fill_eq]
  | head hround hrounds ih =>
    obtain ⟨z, hround', hz⟩ := hround.exists_bare hx
    rw [hround'.fill_eq]
    exact ih hz

end Filling

/-! ## Operations -/

namespace Engine

theorem start_bare (t : Transport σ μ β ε) (upload : Upload) (e : Engine ι) (l : σ) :
    (start t upload e l).bare = (start t upload e.bare l).bare := by
  cases hslot : e.session? with
  | some s =>
    have hslot' : e.bare.session? = some s := hslot
    rw [start, start, hslot, hslot']
    rfl
  | none =>
    have hslot' : e.bare.session? = none := hslot
    cases hready : (t.ready l).1 with
    | false =>
      rw [start_of_not_ready hslot hready, start_of_not_ready hslot' hready]
      rfl
    | true =>
      have hsession : e.bare.sessionOf upload = e.sessionOf upload := rfl
      rw [start_of_ready hslot hready, start_of_ready hslot' hready, hsession]
      cases e.sessionOf upload with
      | error reason => rfl
      | ok s =>
        dsimp only
        have hfill : ((e.opening s (t.ready l).2).fill t).bare =
            ((e.bare.opening s (t.ready l).2).fill t).bare := Filling.bare_fill rfl
        rw [Filled.eq_of_bare hfill]
        cases ((e.opening s (t.ready l).2).fill t).result <;> rfl

theorem acknowledged_bare (t : Transport σ μ β ε) (s : Session) (num : UInt32) (e : Engine ι)
    (l : σ) : (acknowledged t s num e l).bare = (acknowledged t s num e.bare l).bare := by
  by_cases hlast : s.window.IsLast num
  · rw [acknowledged, acknowledged, if_pos hlast, if_pos hlast]
    rfl
  · rw [acknowledged_of_not_isLast hlast, acknowledged_of_not_isLast hlast]
    dsimp only
    have hfill : ((e.advancing s num l).fill t).bare = ((e.bare.advancing s num l).fill t).bare :=
      Filling.bare_fill rfl
    rw [Filled.eq_of_bare hfill]
    cases ((e.advancing s num l).fill t).result <;> rfl

theorem handle_bare (t : Transport σ μ β ε) (event : Event) (e : Engine ι) (l : σ) :
    (handle t event e l).bare = (handle t event e.bare l).bare := by
  have howner : ∀ c, e.bare.owner? c = e.owner? c := fun _ => rfl
  cases event with
  | admissionRequested upload =>
    rw [handle, handle, Reaction.bare_map, Reaction.bare_map, start_bare]
  | cancelled =>
    have hslot : e.bare.session? = e.session? := rfl
    rw [handle, handle, cancel, cancel, hslot]
    cases e.session? <;> rfl
  | blockAckReceived c =>
    rw [handle, handle, forOwner, forOwner, howner]
    cases e.owner? c with
    | none => rfl
    | some s => exact acknowledged_bare t s c.num e l
  | transferApplied c code =>
    rw [handle, handle, forOwner, forOwner, howner]
    cases e.owner? c <;> rfl
  | blockRejected c code =>
    rw [handle, handle, forOwner, forOwner, howner]
    cases e.owner? c <;> rfl
  | blockTimedOut c =>
    rw [handle, handle, forOwner, forOwner, howner]
    cases e.owner? c <;> rfl

theorem perform_bare (t : Transport σ μ β ε) (op : Operation) (e : Engine ι) (l : σ) :
    (perform t op e l).bare = (perform t op e.bare l).bare := by
  rw [perform_eq, perform_eq, Reaction.bare_map, Reaction.bare_map, handle_bare]

/-- With any inspector an engine reacts as with none. -/
theorem run_bare (t : Transport σ μ β ε) (ops : List Operation) (e : Engine ι) (l : σ) :
    (run t ops e l).map Reaction.bare = (run t ops e.bare l).map Reaction.bare := by
  induction ops generalizing e l with
  | nil => rfl
  | cons op ops ih =>
    have hperform := perform_bare t op e l
    have hengine : (perform t op e.bare l).engine = (perform t op e l).engine.bare :=
      (congrArg Reaction.engine hperform).symm
    have hlink : (perform t op e.bare l).link = (perform t op e l).link :=
      (congrArg Reaction.link hperform).symm
    rw [run, run, List.map_cons, List.map_cons, hperform, hengine, hlink, ih]

end Engine

/-- An inspector that collects digests has, after every run, those of the messages that were
taken, in the order in which they were; and whatever the inspector is, each operation answers
the same, makes the same calls and leaves the same engine behind as without any. -/
theorem inspector_exact_and_idle (t : Transport σ μ β ε) (stream : WordStream) (config : Config)
    (link : σ) (ops : List Operation) :
    (let fresh := Engine.ofStream stream config (#[] : Array Digest)
      let h := (History.ofEngine fresh link).run t ops
      (h.engine, h.link.link) = Engine.after t ops fresh link ∧
        h.engine.inspector.toList.map some = h.link.taken.map Parcel.digest?) ∧
    ∀ {ι : Type} [Inspector ι] (inspector : ι),
      (Engine.run t.recorded ops (Engine.ofStream stream config inspector) ⟨link, #[]⟩).map
          Reaction.bare =
        (Engine.run t.recorded ops (Engine.ofStream stream config ()) ⟨link, #[]⟩).map
          Reaction.bare := by
  constructor
  · intro fresh h
    have hstart : (History.ofEngine fresh link).link.Shown fresh.inspector := rfl
    exact ⟨History.run_engine t ops _, History.keeps_run t.keeps_shown hstart ops⟩
  · intro ι _ inspector
    exact Engine.run_bare t.recorded ops (Engine.ofStream stream config inspector) ⟨link, #[]⟩

/-- Of the first window of the sample the second message is refused: two were handed over,
and the digest of the first is shown.  Without the inspector, the engine and the calls are
the same. -/
theorem inspector_exact_and_idle_sample :
    let digest : Digest := { num := 0, offset := 0, len := 16, more := true, crc := 0x60196C79 }
    let fresh := Engine.new default (#[] : Array Digest)
    let link : Link := { script := { sends := [1] } }
    let h := (History.ofEngine fresh link).run Link.transport [.start .sample]
    h.link.link.offered = 2 ∧ h.engine.inspector = #[digest] ∧
      h.link.taken.map Parcel.digest? = [some digest] ∧
      (Engine.run Link.transport.recorded [.start .sample] fresh ⟨link, #[]⟩).map Reaction.bare =
        (Engine.run Link.transport.recorded [.start .sample] (Engine.new default ())
          ⟨link, #[]⟩).map Reaction.bare := by
  intro digest fresh link h
  obtain ⟨⟨-, hexact⟩, hidle⟩ :=
    inspector_exact_and_idle Link.transport (.ofSeed 0) default link [.start .sample]
  have hshown : h.engine.inspector = #[digest] := by decide +kernel
  have htaken : h.engine.inspector.toList.map some = h.link.taken.map Parcel.digest? := hexact
  rw [hshown] at htaken
  exact ⟨by decide +kernel, hshown, htaken.symm, hidle (#[] : Array Digest)⟩

end Blockwise
