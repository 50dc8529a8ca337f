import Blockwise.Link.Scripted
import Blockwise.Proofs.Accepting
import Blockwise.Proofs.Keeping
import Blockwise.Proofs.Messages
/-!
# What goes out is what was asked for

A transport may have messages of its own.  It `Builds` messages, as far as a view of its own
shows, if an empty message is a request with nothing set and the setters are those of
messages; any of them may fail.  `Transport.posting` keeps the messages of any transport as
they were taken.

**Each message by itself** (`sent_as_asked`).  The options of a message come from calls on
this message alone, as every block gets a fresh one, and a path is set once.  So whatever
happened before, a message that is taken is the one that the ledger's contents make
(`Ledgered.Tallies`), and these are of a block of the session that it is taken for.
-/

namespace Blockwise

variable {ι σ μ β ε α : Type}

/-! ## Messages kept as they were taken -/

/-- A link accompanied by the messages that it took, as they were, with the completions
that they went with. -/
structure Posted (σ μ : Type) where
  link : σ
  posts : List (μ × Completion) := []

/-- The computation on the link, which leaves the messages alone. -/
def Posted.lift (x : EStateM ε σ α) : EStateM ε (Posted σ μ) α := fun l =>
  match x l.link with
  | .ok a link => .ok a { l with link }
  | .error e link => .error e { l with link }

namespace Transport

/-- The transport `t`, which keeps the messages that it takes. -/
def posting (t : Transport σ μ β ε) : Transport (Posted σ μ) μ β ε where
  ready := fun l => ((t.ready l.link).1, { l with link := (t.ready l.link).2 })
  create method token := Posted.lift (t.create method token)
  setPath path m := Posted.lift (t.setPath path m)
  setFormat format m := Posted.lift (t.setFormat format m)
  setBlock header m := Posted.lift (t.setBlock header m)
  setPayload payload m := Posted.lift (t.setPayload payload m)
  send m completion := do
    Posted.lift (t.send m completion)
    modify fun l => { l with posts := l.posts ++ [(m, completion)] }
  ofBuildError := t.ofBuildError

/-- Seen through `view`, a new message has nothing set and the setters set what they are
named for, wherever they succeed. -/
structure Builds (t : Transport σ μ β ε) (view : μ → Message) : Prop where
  create : ∀ {method token l m l'}, t.create method token l = .ok m l' →
    view m = .request method token
  setPath : ∀ {path m l m' l'}, t.setPath path m l = .ok m' l' →
    view m' = (view m).setPath path
  setFormat : ∀ {format m l m' l'}, t.setFormat format m l = .ok m' l' →
    view m' = (view m).setFormat format
  setBlock : ∀ {header m l m' l'}, t.setBlock header m l = .ok m' l' →
    view m' = (view m).setBlock header
  setPayload : ∀ {payload m l m' l'}, t.setPayload payload m l = .ok m' l' →
    view m' = (view m).setPayload payload

variable {t : Transport σ μ β ε} {view : μ → Message}

/-- Handing over a block keeps the message that its contents make, if it is taken. -/
theorem Builds.deliver (hbuilds : t.Builds view) (s : Session) (b : Block) (l : Posted σ μ) :
    match s.deliver t.posting b l with
    | .ok _ l' => s.deliver t b l.link = .ok () l'.link ∧ ∃ m, view m = (s.parcel b).message ∧
        l'.posts = l.posts ++ [(m, s.completion b.header.num)]
    | .error e l' => s.deliver t b l.link = .error e l'.link ∧ l'.posts = l.posts := by
  simp only [Session.deliver, Transport.fill, posting, Posted.lift, bind, EStateM.bind,
    EStateM.adaptExcept]
  cases hcreate : t.create s.method s.token l.link with
  | error e link => exact ⟨rfl, rfl⟩
  | ok m link =>
    dsimp only
    cases hpath : t.setPath s.path m link with
    | error e link => exact ⟨rfl, rfl⟩
    | ok m link =>
      dsimp only
      cases hformat : t.setFormat s.format m link with
      | error e link => exact ⟨rfl, rfl⟩
      | ok m link =>
        dsimp only
        cases hblock : t.setBlock b.header m link with
        | error e link => exact ⟨rfl, rfl⟩
        | ok m link =>
          dsimp only
          cases hpayload : t.setPayload b.payload m link with
          | error e link => exact ⟨rfl, rfl⟩
          | ok m link =>
            dsimp only
            cases t.send m (s.completion b.header.num) link with
            | error e link => exact ⟨rfl, rfl⟩
            | ok u link =>
              refine ⟨rfl, m, ?_, rfl⟩
              rw [hbuilds.setPayload hpayload, hbuilds.setBlock hblock,
                hbuilds.setFormat hformat, hbuilds.setPath hpath, hbuilds.create hcreate]
              rfl

theorem Builds.deliver_ok (hbuilds : t.Builds view) {s : Session} {b : Block} {l l' : Posted σ μ}
    (h : s.deliver t.posting b l = .ok () l') :
    s.deliver t b l.link = .ok () l'.link ∧ ∃ m, view m = (s.parcel b).message ∧
      l'.posts = l.posts ++ [(m, s.completion b.header.num)] := by
  have hdeliver := hbuilds.deliver s b l
  rw [h] at hdeliver
  exact hdeliver

theorem Builds.deliver_error (hbuilds : t.Builds view) {s : Session} {b : Block}
    {e : DispatchError ε} {l l' : Posted σ μ} (h : s.deliver t.posting b l = .error e l') :
    s.deliver t b l.link = .error e l'.link ∧ l'.posts = l.posts := by
  have hdeliver := hbuilds.deliver s b l
  rw [h] at hdeliver
  exact hdeliver

theorem Builds.posting_over (hbuilds : t.Builds view) : t.posting.Over t Posted.link where
  ready _ := rfl
  deliver_ok h := (hbuilds.deliver_ok h).1
  deliver_error h := (hbuilds.deliver_error h).1

end Transport

/-! ## The ledger and the messages -/

/-- The messages that were kept are, one by one, those that the contents in the ledger
make. -/
def Ledgered.Tallies (view : μ → Message) (l : Ledgered (Posted σ μ)) : Prop :=
  l.link.posts.map (fun x => (view x.1, x.2)) = l.taken.map fun p => (p.message, p.completion)

variable [Inspector ι] {t : Transport σ μ β ε} {view : μ → Message}

theorem Transport.Builds.keeps_tallies (hbuilds : t.Builds view) :
    t.posting.ledgered.Keeps fun (_ : ι) l => l.Tallies view where
  ready h := h
  taken {i l l' s num b} h hblock hdeliver := by
    obtain ⟨hdeliver', htaken⟩ := Session.deliver_ledgered_eq_ok hdeliver
    obtain ⟨-, m, hm, hposts⟩ := hbuilds.deliver_ok hdeliver'
    unfold Ledgered.Tallies at h ⊢
    rw [hposts, htaken, List.map_append, List.map_append, h, List.map_singleton,
      List.map_singleton, hm]
    rfl
  refused {i l l' s b e} h hdeliver := by
    obtain ⟨hdeliver', htaken⟩ := Session.deliver_ledgered_eq_error hdeliver
    obtain ⟨-, hposts⟩ := hbuilds.deliver_error hdeliver'
    unfold Ledgered.Tallies at h ⊢
    rw [hposts, htaken, h]

/-- Every message that is taken in the course of a run is a request for one block of a
session of this run, and tells that block and nothing else.  The messages are kept beside the
link, on which the run is as it would be without. -/
theorem sent_as_asked (hbuilds : t.Builds view) (stream : WordStream) (config : Config)
    (inspector : ι) (link : σ) (ops : List Operation) :
    let fresh := Engine.ofStream stream config inspector
    let h := (History.ofEngine fresh ⟨link, []⟩).run t.posting ops
    (h.engine, h.link.link.link) = Engine.after t ops fresh link ∧
      ∀ x ∈ h.link.link.posts, ∃ r ∈ h.records, r.admission.config = config ∧
        ∃ i < r.sent.length, x.2 = r.admission.completion i ∧
          (view x.1).Conveys r.admission i := by
  intro fresh h
  have hs : h.Sound := (History.Sound.ofEngine rfl).run ops
  have hstate : (h.engine, h.link.link) = Engine.after t.posting ops fresh ⟨link, []⟩ :=
    History.run_engine t.posting ops _
  have hconfig : h.engine.config = config :=
    (congrArg (·.1.config) hstate).trans (Engine.config_after t.posting ops fresh _)
  have hempty : (History.ofEngine fresh (Posted.mk link [])).link.Tallies view := rfl
  have htallies : h.link.Tallies view := History.keeps_run hbuilds.keeps_tallies hempty ops
  constructor
  · have hafter := Engine.after_over hbuilds.posting_over ops fresh ⟨link, []⟩
    rw [← hstate] at hafter
    exact hafter.symm
  · intro x hx
    have hmem : (view x.1, x.2) ∈ h.link.taken.map fun p => (p.message, p.completion) := by
      rw [← htallies]
      exact List.mem_map_of_mem hx
    obtain ⟨p, hp, hmessage⟩ := List.mem_map.1 hmem
    obtain ⟨hview, hcompletion⟩ := Prod.mk.inj hmessage
    rw [hs.taken_eq] at hp
    obtain ⟨r, hr, hsent⟩ := List.mem_flatMap.1 hp
    have hr' : r ∈ h.records := List.mem_reverse.1 hr
    obtain ⟨hrsound, hrconfig⟩ := hs.record_sound r hr'
    obtain ⟨i, hi, rfl⟩ := hrsound.mem_sent_iff.1 hsent
    refine ⟨r, hr', hrconfig.trans hconfig, i, hi, hcompletion.symm, ?_⟩
    rw [← hview]
    exact hrsound.valid.conveys (hi.trans_le hrsound.length_le)

/-- Scripted links make messages as they should, where their script lets them. -/
theorem Link.transport_builds : Link.transport.Builds Draft.message := by
  have hset : ∀ {part : Part} {f : Message → Message} {d d' : Draft} {l l' : Link},
      set part f d l = .ok d' l' → d'.message = f d.message := by
    intro part f d d' l l' h
    unfold set at h
    split at h
    · cases h
    · cases h
      rfl
  refine ⟨fun {method token l d l'} h => ?_, hset, hset, hset, hset⟩
  have h' : create method token l = .ok d l' := h
  unfold create at h'
  dsimp only at h'
  split at h'
  · cases h'
  · cases h'
    rfl

/-- The first window of an upload goes to a path with slashes around and within. -/
theorem sent_as_asked_sample :
    let fresh := Engine.new default ()
    let upload := { Upload.sample with path := "/fw//image/" }
    let h := (History.ofEngine fresh (Posted.mk ({} : Link) [])).run Link.transport.posting
      [.start upload]
    Link.transport.Builds Draft.message ∧
      h.link.link.posts.map (·.2.num) = [0, 1] ∧
      ∀ x ∈ h.link.link.posts, ∃ r ∈ h.records, r.admission.config = default ∧
        ∃ i < r.sent.length, x.2 = r.admission.completion i ∧
          x.1.message.Conveys r.admission i := by
  intro fresh upload h
  exact ⟨Link.transport_builds, by decide +kernel,
    (sent_as_asked Link.transport_builds (.ofSeed 0) default () {} [.start upload]).2⟩

end Blockwise
