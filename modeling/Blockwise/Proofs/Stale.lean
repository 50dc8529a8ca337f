import Blockwise.Proofs.Accepting
import Blockwise.Proofs.Audit
/-!
# Stale completions are invisible

A completion without effect leaves no trace.  The engine and the link stay as
they are, nothing is called, and the answer is silence
(`Audit.Sound.perform_of_stale`), so a run without its stale completions is the
same run (`Audit.Sound.run_prune`).

**Generations tell sessions apart.**  What makes a completion stale after its
session is over is the generation, which counts the sessions in 32 bits
(`History.Numbered`).  A completion for one session can have an effect in another
only if 2³² sessions lie between them, whatever their tokens are.
-/

namespace Blockwise

variable {ι σ μ β ε : Type} [Inspector ι]

namespace Engine

variable {t : Transport σ μ β ε} {e : Engine ι} {event : Event} {c : Completion}

/-- A completion that the active session does not own changes nothing. -/
theorem handle_of_owner?_none (hcompletion : event.completion? = some c)
    (howner : e.owner? c = none) (link : σ) :
    handle t event e link = ⟨none, e, link, #[.ignored c.num]⟩ := by
  cases event with
  | admissionRequested upload => cases hcompletion
  | cancelled => cases hcompletion
  | blockAckReceived c' =>
    cases hcompletion
    rw [handle, forOwner, howner]
  | transferApplied c' code =>
    cases hcompletion
    rw [handle, forOwner, howner]
  | blockRejected c' code =>
    cases hcompletion
    rw [handle, forOwner, howner]
  | blockTimedOut c' =>
    cases hcompletion
    rw [handle, forOwner, howner]

end Engine

namespace History

variable {t : Transport σ μ β ε} {h : History ι σ}

/-- A completion that the active session does not own leaves the history as it is. -/
theorem Sound.step_of_owner?_none (hs : h.Sound) {op : Operation} {c : Completion}
    (hcompletion : op.event.completion? = some c) (howner : h.engine.owner? c = none) :
    h.step t op = h := by
  rw [step_eq]
  unfold History.handled
  rw [Engine.handle_of_owner?_none hcompletion howner]
  dsimp only
  rw [hs.noted_of_owner?_none hcompletion howner]

end History

namespace Audit

/-- What goes with the operations of a run, without what goes with the stale
completions. -/
def prune {α : Type} (t : Transport σ μ β ε) : Audit ι σ → List Operation → List α → List α
  | x, op :: ops, a :: as =>
    if x.Stale op.event then prune t (x.step t op) ops as
    else a :: prune t (x.step t op) ops as
  | _, [], _ | _, _ :: _, [] => []

variable {t : Transport σ μ β ε} {x : Audit ι σ} {op : Operation}

theorem prune_cons_of_stale {α : Type} {a : α} {ops : List Operation} {as : List α}
    (hstale : x.Stale op.event) :
    x.prune t (op :: ops) (a :: as) = (x.step t op).prune t ops as := if_pos hstale

theorem prune_cons_of_not_stale {α : Type} {a : α} {ops : List Operation} {as : List α}
    (hstale : ¬ x.Stale op.event) :
    x.prune t (op :: ops) (a :: as) = a :: (x.step t op).prune t ops as := if_neg hstale

omit [Inspector ι] in
theorem Sound.exists_of_stale (hx : x.Sound) (hstale : x.Stale op.event) :
    ∃ c, op.event.completion? = some c ∧ x.history.engine.owner? c = none := by
  obtain ⟨c, hcompletion, heffective⟩ := hstale
  refine ⟨c, hcompletion, Option.eq_none_iff_forall_ne_some.2 fun s howner => ?_⟩
  exact heffective (hx.effective_iff.2 ⟨s, howner⟩)

/-- A stale completion is met with silence, and changes nothing. -/
theorem Sound.perform_of_stale (hx : x.Sound) (hstale : x.Stale op.event) (link : σ) :
    ∃ c, op.event.completion? = some c ∧ Engine.perform t op x.history.engine link =
      ⟨.outcome none, x.history.engine, link, #[.ignored c.num]⟩ := by
  obtain ⟨c, hcompletion, howner⟩ := hx.exists_of_stale hstale
  have hrequest := Event.not_isRequest_of_completion? hcompletion
  refine ⟨c, hcompletion, ?_⟩
  rw [Engine.perform_eq, Engine.handle_of_owner?_none hcompletion howner]
  unfold Reaction.map
  dsimp only
  rw [Operation.answer_of_not_request hrequest]

theorem Sound.step_of_stale (hx : x.Sound) (hstale : x.Stale op.event) : x.step t op = x := by
  obtain ⟨c, hcompletion, howner⟩ := hx.exists_of_stale hstale
  have hhistory : (x.step t op).history = x.history :=
    hx.history.step_of_owner?_none hcompletion howner
  have heffects : (x.step t op).effects = x.effects := effects_step_of_stale hstale
  generalize x.step t op = y at hhistory heffects ⊢
  cases y
  cases hhistory
  cases heffects
  rfl

/-- A run without its stale completions is the same run. -/
theorem Sound.run_prune (hx : x.Sound) (ops : List Operation) :
    Engine.run t (x.prune t ops ops) x.history.engine x.history.link.link =
        x.prune t ops (Engine.run t ops x.history.engine x.history.link.link) ∧
      Engine.after t (x.prune t ops ops) x.history.engine x.history.link.link =
        Engine.after t ops x.history.engine x.history.link.link := by
  induction ops generalizing x with
  | nil => exact ⟨rfl, rfl⟩
  | cons op ops ih =>
    rw [Engine.run, Engine.after]
    by_cases hstale : x.Stale op.event
    · obtain ⟨c, -, hperform⟩ := hx.perform_of_stale (t := t) hstale x.history.link.link
      rw [prune_cons_of_stale hstale, prune_cons_of_stale hstale, hx.step_of_stale hstale, hperform]
      exact ih hx
    · obtain ⟨hengine, hlink⟩ := History.step_engine t x.history op
      obtain ⟨hrun, hafter⟩ := ih (hx.step op)
      rw [prune_cons_of_not_stale hstale, prune_cons_of_not_stale hstale, Engine.run, Engine.after]
      rw [← hengine, ← hlink]
      exact ⟨congrArg _ hrun, hafter⟩

/-! ## Generations -/

omit [Inspector ι]

/-- An effective completion bears the generation of the latest session. -/
theorem Sound.generation_eq (hx : x.Sound) (hn : x.history.Numbered) {c : Completion}
    (h : x.Effective c) :
    x.earlier + 1 = x.history.admissions.length ∧
      c.generation = UInt32.ofNat x.history.admissions.length := by
  obtain ⟨a, ha, hgeneration, -⟩ := hx.exists_admission_of_effective h
  obtain ⟨hlt, -⟩ := List.getElem?_eq_some_iff.1 ha
  have hearlier : x.earlier + 1 = x.history.admissions.length := by
    unfold earlier History.admissions at *
    rw [List.length_reverse, List.length_map] at hlt
    rw [List.length_map, List.length_tail] at *
    omega
  exact ⟨hearlier, by rw [hgeneration, hn.getElem?_eq _ a ha, hearlier]⟩

/-- A completion that is effective twice is so in sessions that are far apart. -/
theorem Sound.add_le_length [Inspector ι] (hx : x.Sound) (hn : x.history.Numbered)
    {c : Completion} (hcompletion : op.event.completion? = some c) (h : x.Effective c)
    {ops : List Operation} (h' : (x.run t (op :: ops)).Effective c) :
    x.history.admissions.length + 2 ^ 32 ≤ (x.run t (op :: ops)).history.admissions.length := by
  have hy : (x.run t (op :: ops)).Sound := hx.run _
  have hny : (x.run t (op :: ops)).history.Numbered := by
    rw [history_run]
    exact hn.run hx.history _
  have hle : x.history.admissions.length ≤ (x.run t (op :: ops)).history.admissions.length := by
    rw [history_run]
    exact (hx.history.admissions_suffix_run _).length_le
  obtain ⟨hearlier, hgeneration⟩ := hx.generation_eq hn h
  obtain ⟨hearlier', hgeneration'⟩ := hy.generation_eq hny h'
  -- In the same session the first time would have been noted.
  have hne : x.history.admissions.length ≠ (x.run t (op :: ops)).history.admissions.length := by
    intro hsame
    have hnoted : (x.earlier, c.num) ∈ (x.run t (op :: ops)).effects := by
      refine effects_subset_run t ops (x.step t op) ?_
      rw [effects_step_of_effective hcompletion h]
      exact List.mem_append_right _ List.mem_cons_self
    rw [← hsame, ← hearlier] at hearlier'
    rw [← Nat.add_right_cancel hearlier'] at hnoted
    exact h'.2.2 hnoted
  rw [hgeneration', ← UInt32.toNat_inj, UInt32.toNat_ofNat', UInt32.toNat_ofNat'] at hgeneration
  omega

/-- A completion with the generation of an earlier session, fewer than 2³² sessions
ago, is not effective. -/
theorem Sound.not_effective_of_earlier (hx : x.Sound) (hn : x.history.Numbered) {k : ℕ}
    {a : Admission} {c : Completion} (ha : x.history.admissions[k]? = some a) (hpos : 0 < k)
    (hlt : k < 2 ^ 32) (hgeneration : c.generation = a.generation) : ¬ x.Effective c := by
  intro h
  obtain ⟨-, hlatest⟩ := hx.generation_eq hn h
  obtain ⟨hk, -⟩ := List.getElem?_eq_some_iff.1 ha
  have hplace : x.history.admissions.reverse[x.history.admissions.length - 1 - k]? = some a := by
    rw [List.getElem?_reverse (by omega), ← ha]
    congr 1
    omega
  have hnumber := hn.getElem?_eq _ a hplace
  rw [← hgeneration, hlatest, ← UInt32.toNat_inj, UInt32.toNat_ofNat', UInt32.toNat_ofNat']
    at hnumber
  omega

end Audit

/-- **Stale completions are invisible.**  Call a completion effective when it bears
the token and the generation of the active session, names a block that was sent
for it, and no effective completion has named that block before
(`Audit.Effective`).  Take any run, on any transport, with any inspector: the
link may keep a record of the calls (`Transport.recorded`), and the inspector one
of the digests.

* Without its stale completions, the run has the same reactions to all other
  operations, and leaves the same engine and the same link.
* A stale completion is met with silence, and changes neither.
* No message has an effect twice.
* A completion that was effective is not effective again, unless 2³² sessions were
  admitted in between.
* A completion for an earlier session, fewer than 2³² sessions ago, is not
  effective, whatever the tokens of the sessions are. -/
theorem stale_completions_invisible (t : Transport σ μ β ε) (stream : WordStream)
    (config : Config) (inspector : ι) (link : σ) (ops : List Operation) :
    let fresh := Engine.ofStream stream config inspector
    let start := Audit.ofEngine fresh link
    let x := start.run t ops
    let state := Engine.after t ops fresh link
    let kept := start.prune t ops ops
    (Engine.run t kept fresh link = start.prune t ops (Engine.run t ops fresh link) ∧
      Engine.after t kept fresh link = state) ∧
    (∀ op, x.Stale op.event →
      (Engine.perform t op state.1 state.2).result = .outcome none ∧
      (Engine.perform t op state.1 state.2).engine = state.1 ∧
      (Engine.perform t op state.1 state.2).link = state.2) ∧
    x.effects.Nodup ∧
    (∀ op c ops', op.event.completion? = some c → x.Effective c →
      (start.run t (ops ++ op :: ops')).history.admissions.length <
        x.history.admissions.length + 2 ^ 32 →
      ¬ (start.run t (ops ++ op :: ops')).Effective c) ∧
    ∀ k a c, x.history.admissions[k]? = some a → 0 < k → k < 2 ^ 32 →
      c.generation = a.generation → ¬ x.Effective c := by
  intro fresh start x state kept
  have hstart : start.Sound := .ofEngine rfl link
  have hx : x.Sound := hstart.run ops
  have hn : x.history.Numbered := by
    rw [Audit.history_run]
    exact (History.Numbered.ofEngine rfl link).run hstart.history ops
  have hstate : (x.history.engine, x.history.link.link) = state := by
    rw [Audit.history_run]
    exact History.run_engine t ops _
  refine ⟨hstart.run_prune ops, ?_, hx.nodup, ?_, fun k a c => hx.not_effective_of_earlier hn⟩
  · intro op hstale
    obtain ⟨c, -, hperform⟩ := hx.perform_of_stale (t := t) hstale x.history.link.link
    rw [← hstate, hperform]
    exact ⟨rfl, rfl, rfl⟩
  · intro op c ops' hcompletion h hlt h'
    rw [Audit.run_append] at h' hlt
    exact Nat.not_le.2 hlt (hx.add_le_length hn hcompletion h h')

/-- A block of the sample is acknowledged twice, and once more when the sample was
given up and started again. -/
theorem stale_completions_invisible_sample :
    let fresh := Engine.new default ()
    let start := Audit.ofEngine fresh ()
    let c := (fresh.admission .sample).completion 0
    let ack := Operation.handle (.blockAckReceived c)
    let state := Engine.after .sink [.start .sample, ack] fresh ()
    (start.run .sink [.start .sample]).Effective c ∧
      (start.run .sink [.start .sample, ack]).Stale ack.event ∧
      (Engine.perform .sink ack state.1 state.2).result = .outcome none ∧
      (Engine.perform .sink ack state.1 state.2).engine = state.1 ∧
      ¬ (start.run .sink [.start .sample, ack, .cancel, .start .sample]).Effective c := by
  intro fresh start c ack state
  have heffective : (start.run .sink [.start .sample]).Effective c := by decide +kernel
  have hstale : (start.run .sink [.start .sample, ack]).Stale ack.event := by decide +kernel
  have hlt :
      (start.run .sink [.start .sample, ack, .cancel, .start .sample]).history.admissions.length <
        (start.run .sink [.start .sample]).history.admissions.length + 2 ^ 32 := by decide +kernel
  obtain ⟨-, -, -, hagain, -⟩ :=
    stale_completions_invisible .sink (.ofSeed 0) default () () [.start .sample]
  obtain ⟨-, hsilent, -⟩ :=
    stale_completions_invisible .sink (.ofSeed 0) default () () [.start .sample, ack]
  obtain ⟨hresult, hengine, -⟩ := hsilent ack hstale
  exact ⟨heffective, hstale, hresult, hengine,
    hagain ack c [.cancel, .start .sample] rfl heffective hlt⟩

end Blockwise
