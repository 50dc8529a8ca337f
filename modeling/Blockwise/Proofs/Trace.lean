import Blockwise.Link.Scripted
import Blockwise.Proofs.Calls
import Blockwise.Proofs.Change
import Blockwise.Proofs.Dispatch
/-!
# Calls and their failures

On a traced transport every call is written down, with the error if it failed.  To hand
over a block takes six calls, and what is heard of blocks handed over one after the other
is these calls for every block: all of them, or all up to one that failed
(`Admission.Hears`).

**An operation reports the failure of a call once** (`calls_and_failures`).  It asks at
most whether the transport is ready, and then makes the calls for the blocks that are due,
up to the first that fails.  A failed call is what it answers, with the transport's own
error, and it is the end of the session.
-/

namespace Blockwise

variable {ι σ μ β ε δ α : Type}

/-! ## Traces -/

/-- A call, with the error that it failed with. -/
structure Heard (β ε : Type) where
  call : Call
  error : Option (β ⊕ ε) := none

/-- A call that succeeded. -/
def Heard.taken (call : Call) : Heard β ε := { call }

/-- Calls of which the last failed. -/
def Heard.cut (made : List Call) (call : Call) (e : β ⊕ ε) : List (Heard β ε) :=
  made.map taken ++ [⟨call, some e⟩]

/-- A link with the calls that were made on it, in order. -/
structure Traced (σ β ε : Type) where
  link : σ
  heard : List (Heard β ε) := []

/-- The computation `x` on the link, written down as `call`. -/
def Traced.note (call : Call) (wrap : δ → β ⊕ ε) (x : EStateM δ σ α) :
    EStateM δ (Traced σ β ε) α := fun l =>
  match x l.link with
  | .ok a link => .ok a ⟨link, l.heard ++ [.taken call]⟩
  | .error e link => .error e ⟨link, l.heard ++ [⟨call, some (wrap e)⟩]⟩

namespace Transport

variable (t : Transport σ μ β ε)

/-- The transport `t`, with its calls written down. -/
def traced : Transport (Traced σ β ε) μ β ε where
  ready := fun l => ((t.ready l.link).1, ⟨(t.ready l.link).2, l.heard ++ [.taken .ready]⟩)
  create method token := Traced.note (.create method token) .inr (t.create method token)
  setPath path m := Traced.note (.setPath path) .inl (t.setPath path m)
  setFormat format m := Traced.note (.setFormat format) .inl (t.setFormat format m)
  setBlock header m := Traced.note (.setBlock header) .inl (t.setBlock header m)
  setPayload payload m := Traced.note (.setPayload payload) .inl (t.setPayload payload m)
  send m completion := Traced.note (.send completion) .inr (t.send m completion)
  ofBuildError := t.ofBuildError

/-- What is made of the failure of a call.  Errors in filling a message are turned into
errors of the transport; all others are its own. -/
def failure (call : Call) : β ⊕ ε → DispatchError ε
  | .inl e => .resourceExhausted (t.ofBuildError e)
  | .inr e =>
    match call with
    | .send _ => .sendFailed e
    | .ready | .create .. | .setPath _ | .setFormat _ | .setBlock _ | .setPayload _ =>
      .resourceExhausted e

end Transport

/-- Handing over a block on the traced transport is handing it over on the transport
itself; its calls are written down up to the first that failed, which is reported. -/
theorem Session.deliver_traced (s : Session) (t : Transport σ μ β ε) (b : Block)
    (l : Traced σ β ε) :
    match s.deliver t.traced b l with
    | .ok _ l' => s.deliver t b l.link = .ok () l'.link ∧
        l'.heard = l.heard ++ (s.calls b).map Heard.taken
    | .error f l' => s.deliver t b l.link = .error f l'.link ∧
        ∃ made call rest e, s.calls b = made ++ call :: rest ∧
          l'.heard = l.heard ++ Heard.cut made call e ∧ f = t.failure call e := by
  simp only [Session.deliver, Transport.fill, Transport.traced, Traced.note, bind,
    EStateM.bind, EStateM.adaptExcept]
  cases t.create s.method s.token l.link with
  | error e link => exact ⟨rfl, [], _, _, .inr e, rfl, rfl, rfl⟩
  | ok message link =>
    dsimp only
    cases t.setPath s.path message link with
    | error e link =>
      exact ⟨rfl, (s.calls b).take 1, _, _, .inl e, rfl, by simp [Session.calls, Heard.cut], rfl⟩
    | ok message link =>
      dsimp only
      cases t.setFormat s.format message link with
      | error e link =>
        exact ⟨rfl, (s.calls b).take 2, _, _, .inl e, rfl, by simp [Session.calls, Heard.cut], rfl⟩
      | ok message link =>
        dsimp only
        cases t.setBlock b.header message link with
        | error e link =>
          exact ⟨rfl, (s.calls b).take 3, _, _, .inl e, rfl, by simp [Session.calls, Heard.cut],
            rfl⟩
        | ok message link =>
          dsimp only
          cases t.setPayload b.payload message link with
          | error e link =>
            exact ⟨rfl, (s.calls b).take 4, _, _, .inl e, rfl, by simp [Session.calls, Heard.cut],
              rfl⟩
          | ok message link =>
            dsimp only
            cases t.send message (s.completion b.header.num) link with
            | error e link =>
              exact ⟨rfl, (s.calls b).take 5, _, _, .inr e, rfl,
                by simp [Session.calls, Heard.cut], rfl⟩
            | ok u link => exact ⟨rfl, by simp [Session.calls]⟩

theorem Transport.traced_over (t : Transport σ μ β ε) : t.traced.Over t Traced.link where
  ready _ := rfl
  deliver_ok {s b l l'} h := by
    have hdeliver := s.deliver_traced t b l
    rw [h] at hdeliver
    exact hdeliver.1
  deliver_error {s b f l l'} h := by
    have hdeliver := s.deliver_traced t b l
    rw [h] at hdeliver
    exact hdeliver.1

/-! ## Blocks handed over -/

/-- How handing over ends: well, or with a failure. -/
def DispatchError.ended (failure : Option (DispatchError ε)) (link : σ) :
    EStateM.Result (DispatchError ε) σ Unit :=
  match failure with
  | none => .ok () link
  | some f => .error f link

namespace Admission

variable (a : Admission)

/-- The calls that hand over block `i`. -/
def calls (i : ℕ) : List Call :=
  [.create a.method a.token, .setPath a.upload.target, .setFormat a.upload.format,
    .setBlock (a.header i), .setPayload (Block.payloadAt a.upload.body a.size i),
    .send (a.completion i)]

/-- What is heard of `count` blocks that are handed over from block `first` on, how many of
them are taken, and the failure that is reported if one is not. -/
inductive Hears (t : Transport σ μ β ε) (first count : ℕ) :
    List (Heard β ε) → ℕ → Option (DispatchError ε) → Prop
  /-- All calls for all blocks. -/
  | all : Hears t first count (((List.range' first count).flatMap a.calls).map .taken) count none
  /-- All calls for the first `k` blocks, and for the next one those up to a call that
  failed. -/
  | stopped {k : ℕ} {made rest : List Call} {call : Call} {e : β ⊕ ε} (hk : k < count)
      (hcalls : a.calls (first + k) = made ++ call :: rest) :
      Hears t first count (Heard.cut ((List.range' first k).flatMap a.calls ++ made) call e) k
        (some (t.failure call e))

variable {a} {t : Transport σ μ β ε}

/-- One more block that is taken comes first. -/
theorem Hears.cons {first count k : ℕ} {news : List (Heard β ε)}
    {failure : Option (DispatchError ε)} (h : a.Hears t (first + 1) count news k failure) :
    a.Hears t first (count + 1) ((a.calls first).map .taken ++ news) (k + 1) failure := by
  cases h with
  | all =>
    rw [← List.map_append, ← List.flatMap_cons, ← List.range'_succ]
    exact .all
  | @stopped k made rest call e hk hcalls =>
    have hnews : (a.calls first).map Heard.taken ++
        Heard.cut ((List.range' (first + 1) k).flatMap a.calls ++ made) call e =
        Heard.cut ((List.range' first (k + 1)).flatMap a.calls ++ made) call e := by
      unfold Heard.cut
      simp only [List.range'_succ, List.flatMap_cons, List.append_assoc, List.map_append]
    have hcalls' : a.calls (first + (k + 1)) = made ++ call :: rest := by
      rw [← hcalls, Nat.add_right_comm, Nat.add_assoc]
    rw [hnews]
    exact .stopped (Nat.succ_lt_succ hk) hcalls'

/-- A block that is not taken is the end of it. -/
theorem Hears.of_cut {first count : ℕ} {made rest : List Call} {call : Call} {e : β ⊕ ε}
    (hcalls : a.calls first = made ++ call :: rest) :
    a.Hears t first (count + 1) (Heard.cut made call e) 0 (some (t.failure call e)) :=
  .stopped (k := 0) (Nat.succ_pos _) hcalls

/-- What is heard of blocks that are handed over begins with the request for a message. -/
theorem Hears.head?_eq {first count k : ℕ} {news : List (Heard β ε)}
    {failure : Option (DispatchError ε)} (h : a.Hears t first count news k failure)
    (hcount : 0 < count) : (news.map Heard.call).head? = some (.create a.method a.token) := by
  cases h with
  | all =>
    obtain ⟨count, rfl⟩ := Nat.exists_eq_succ_of_ne_zero hcount.ne'
    rw [List.range'_succ]
    rfl
  | @stopped k made rest call e hk hcalls =>
    cases k with
    | zero =>
      cases made with
      | nil => exact congrArg List.head? (congrArg (List.take 1) hcalls.symm)
      | cons call' made => exact congrArg List.head? (congrArg (List.take 1) hcalls.symm)
    | succ k =>
      rw [List.range'_succ]
      rfl

/-- Blocks that are handed over on the traced transport, one after the other: what is heard
of it, and what is taken. -/
theorem exists_hears (t : Transport σ μ β ε) (first count : ℕ) (l : Ledgered (Traced σ β ε)) :
    ∃ link news k failure, a.Hears t first count news k failure ∧
      a.handAll t.traced.ledgered first count l =
        DispatchError.ended failure
          ⟨⟨link, l.link.heard ++ news⟩, l.taken ++ (List.range' first k).map a.parcel⟩ := by
  induction count generalizing first l with
  | zero =>
    refine ⟨l.link.link, _, _, _, .all, ?_⟩
    show _ = EStateM.Result.ok ()
      (⟨⟨_, l.link.heard ++ []⟩, l.taken ++ []⟩ : Ledgered (Traced σ β ε))
    rw [List.append_nil, List.append_nil]
    rfl
  | succ count ih =>
    have hheard := (a.session a.window).deliver_traced t (a.block first) l.link
    rw [handAll_succ, ← deliver_block _ a.window]
    simp only [bind, EStateM.bind]
    rw [Session.deliver_ledgered]
    cases hdeliver : (a.session a.window).deliver t.traced (a.block first) l.link with
    | ok u l' =>
      rw [hdeliver] at hheard
      obtain ⟨link, news, k, failure, hhears, heq⟩ :=
        ih (first + 1) ⟨l', l.taken ++ [a.parcel first]⟩
      refine ⟨link, _, _, failure, hhears.cons, ?_⟩
      refine heq.trans ?_
      rw [hheard.2, List.range'_succ, List.map_cons, List.append_assoc, List.append_assoc]
      rfl
    | error f l' =>
      rw [hdeliver] at hheard
      obtain ⟨-, made, call, rest, e, hcalls, hnews, rfl⟩ := hheard
      refine ⟨l'.link, _, _, _, .of_cut (e := e) hcalls, ?_⟩
      rw [← hnews]
      show _ = EStateM.Result.error _ (⟨l', l.taken ++ []⟩ : Ledgered (Traced σ β ε))
      rw [List.append_nil]

end Admission

/-! ## Operations -/

namespace Engine

/-- What is heard of an operation before any block. -/
def heardAsked (e : Engine ι) (event : Event) : List (Heard β ε) :=
  if event.isRequest && !e.isActive then [.taken .ready] else []

theorem asked_traced (t : Transport σ μ β ε) (event : Event) (e : Engine ι)
    (l : Ledgered (Traced σ β ε)) :
    (e.asked t.traced.ledgered event l).link.heard = l.link.heard ++ e.heardAsked event ∧
      (e.asked t.traced.ledgered event l).taken = l.taken := by
  unfold asked heardAsked
  cases event.isRequest && !e.isActive with
  | false => exact ⟨(List.append_nil _).symm, rfl⟩
  | true => exact ⟨rfl, rfl⟩

variable [Inspector ι] {t : Transport σ μ β ε} {e : Engine ι} {event : Event} {link : σ}

/-- Without a session an engine is silent unless an upload is asked for. -/
theorem handle_of_free (hfree : e.session? = none) (hrequest : event.isRequest = false) :
    ∃ notices, handle t event e link = ⟨none, e, link, notices⟩ := by
  cases event with
  | admissionRequested upload => cases hrequest
  | cancelled =>
    rw [handle, cancel, hfree]
    exact ⟨_, rfl⟩
  | _ =>
    rw [handle, forOwner, owner?, hfree]
    exact ⟨_, rfl⟩

/-- It stays silent, and makes no call, until an upload is asked for. -/
theorem run_of_free (hfree : e.session? = none) {ops : List Operation}
    (hops : ∀ op ∈ ops, op.event.isRequest = false) :
    (run t ops e link).map Reaction.result = ops.map (fun _ => .outcome none) ∧
      after t ops e link = (e, link) := by
  induction ops with
  | nil => exact ⟨rfl, rfl⟩
  | cons op ops ih =>
    obtain ⟨hop, hops⟩ := List.forall_mem_cons.1 hops
    obtain ⟨notices, hhandle⟩ : ∃ notices, handle t op.event e link = ⟨none, e, link, notices⟩ :=
      handle_of_free hfree hop
    have hperform : perform t op e link = ⟨.outcome none, e, link, notices⟩ := by
      rw [perform_eq, hhandle, Reaction.map, Operation.answer_of_not_request hop]
    obtain ⟨hresults, hafter⟩ := ih hops
    rw [run, after, hperform]
    exact ⟨congrArg _ hresults, hafter⟩

end Engine

/-- What is heard of an event with blocks due, and how it is answered. -/
theorem History.Sound.exists_hears_of_due [Inspector ι] {σ' : Type} {t : Transport σ μ β ε}
    {h : History ι σ'} (hs : h.Sound) {event : Event} {a : Admission} {acked : Finset ℕ}
    {first : ℕ} (l : Ledgered (Traced σ β ε))
    (hdue : h.Due (t.ready l.link.link).1 event a acked first) :
    let r := Engine.handle t.traced.ledgered event h.engine l
    ∃ news k failure, a.Hears t first (a.reach acked.card - first) news k failure ∧
      r.link.link.heard = l.link.heard ++ h.engine.heardAsked event ++ news ∧
      r.link.taken = l.taken ++ (List.range' first k).map a.parcel ∧
      r.result = (failure.map fun f => .error (event.failure f)) ∧
      r.engine.status = if failure.isSome then .failed else .active := by
  intro r
  obtain ⟨hheard, htaken⟩ := Engine.asked_traced t event h.engine l
  obtain ⟨link, news, k, failure, hhears, hhanded⟩ := Admission.exists_hears t first
    (a.reach acked.card - first) (h.engine.asked t.traced.ledgered event l)
  have hhandle := hs.handle_of_due t.traced.ledgered l hdue
  rw [hhanded, hheard, htaken] at hhandle
  refine ⟨news, k, failure, hhears, ?_⟩
  cases failure with
  | none =>
    obtain ⟨hresult, ⟨s, hslot, -⟩, hlink⟩ := hhandle
    exact ⟨by rw [hlink], by rw [hlink], hresult, congrArg Slot.status hslot⟩
  | some f =>
    obtain ⟨hresult, hslot, hlink⟩ := hhandle
    exact ⟨by rw [hlink], by rw [hlink], hresult, congrArg Slot.status hslot⟩

namespace History

variable [Inspector ι]

/-- A history on the traced transport goes as the run on the transport itself. -/
theorem run_traced (t : Transport σ μ β ε) (ops : List Operation) (e : Engine ι) (link : σ) :
    let h := (History.ofEngine e ({ link } : Traced σ β ε)).run t.traced ops
    (h.engine, h.link.link.link) = Engine.after t ops e link := by
  intro h
  have hrun : (h.engine, h.link.link) = Engine.after t.traced ops e { link } :=
    History.run_engine t.traced ops _
  have hafter := Engine.after_over t.traced_over ops e { link }
  rw [← hrun] at hafter
  exact hafter.symm

/-- One more operation on the transport itself, from what the event comes to on the traced
one. -/
theorem step_traced (t : Transport σ μ β ε) (h : History ι (Traced σ β ε)) (op : Operation) :
    let x := Engine.handle t.traced.ledgered op.event h.engine h.link
    (h.step t.traced op).engine = x.engine ∧ (h.step t.traced op).link = x.link ∧
      Engine.perform t op h.engine h.link.link.link =
        ⟨op.answer x.result, x.engine, x.link.link.link, x.notices⟩ := by
  rw [step_eq]
  refine ⟨rfl, rfl, ?_⟩
  have hperform := Engine.perform_over t.traced_over op h.engine h.link.link
  rw [← Engine.perform_over t.traced.ledgered_over, Engine.perform_eq] at hperform
  exact hperform.symm

end History

/-- **Calls, and the failure of one.**  In every state that can be reached, an operation
asks whether the transport is ready if it asks for an upload and finds the slot free.
Without blocks due it makes no other call, and reports none as failed.

With blocks due it makes the six calls for each of them in turn, from the next block on and
up to where window and body leave room.  It stops after the first call that fails.  All
blocks before this one were taken.  The failure, in the transport's own words, is what the
operation answers; the session is gone; and until an upload is asked for nothing more is
answered and no call is made. -/
theorem calls_and_failures [Inspector ι] (t : Transport σ μ β ε) (stream : WordStream)
    (config : Config) (inspector : ι) (link : σ) (ops : List Operation) (op : Operation) :
    let fresh := Engine.ofStream stream config inspector
    let h := (History.ofEngine fresh ({ link } : Traced σ β ε)).run t.traced ops
    let h' := h.step t.traced op
    let state := Engine.after t ops fresh link
    let r := Engine.perform t op state.1 state.2
    let due := h.Due (t.ready state.2).1 op.event
    ((h.engine, h.link.link.link) = state ∧ (h'.engine, h'.link.link.link) = (r.engine, r.link)) ∧
    ((∀ a acked first, ¬ due a acked first) →
      h'.link.link.heard = h.link.link.heard ++ h.engine.heardAsked op.event ∧
      h'.link.taken = h.link.taken ∧
      ∀ f, r.result.error? ≠ some (op.event.failure f)) ∧
    ∀ a acked first, due a acked first →
      (∀ p ∈ state.1.progress, first = p.nextToSend.toNat) ∧
      ∃ news k failure, a.Hears t first (a.reach acked.card - first) news k failure ∧
        h'.link.link.heard = h.link.link.heard ++ h.engine.heardAsked op.event ++ news ∧
        h'.link.taken = h.link.taken ++ (List.range' first k).map a.parcel ∧
        r.result = op.answer (failure.map fun f => .error (op.event.failure f)) ∧
        r.engine.status = (if failure.isSome then .failed else .active) ∧
        (failure.isSome → r.engine.session? = none ∧
          ∀ ops', (∀ op' ∈ ops', op'.event.isRequest = false) →
            (Engine.run t.traced ops' h'.engine h'.link.link).map Reaction.result =
              ops'.map (fun _ => .outcome none) ∧
            Engine.after t.traced ops' h'.engine h'.link.link = (h'.engine, h'.link.link)) := by
  intro fresh h h' state r due
  have hs : h.Sound := (History.Sound.ofEngine rfl).run ops
  have hstate : (h.engine, h.link.link.link) = state := History.run_traced t ops fresh link
  clear_value state
  subst hstate
  obtain ⟨hengine, hlink, hr⟩ := h.step_traced t op
  change h'.engine = _ at hengine
  change h'.link = _ at hlink
  change r = _ at hr
  refine ⟨⟨rfl, by rw [hengine, hlink, hr]⟩, fun hnone => ?_, fun a acked first hdue => ⟨?_, ?_⟩⟩
  · obtain ⟨hheard, htaken⟩ := Engine.asked_traced t op.event h.engine h.link
    obtain ⟨hasked, hresult⟩ := hs.handle_of_not_due t.traced.ledgered h.link hnone
    rw [hlink, hasked, hr]
    exact ⟨hheard, htaken, fun f hf => hresult f (Operation.error?_answer_eq_some_iff.1 hf)⟩
  · intro p hp
    obtain ⟨s, hsession, rfl⟩ := Option.map_eq_some_iff.1 hp
    exact (hs.first_of_due hdue s hsession).symm
  · obtain ⟨news, k, failure, hhears, hheard, htaken, hresult, hstatus⟩ :=
      hs.exists_hears_of_due h.link hdue
    rw [← hlink] at hheard htaken
    rw [hr]
    refine ⟨news, k, failure, hhears, hheard, htaken, congrArg op.answer hresult, hstatus, ?_⟩
    intro hsome
    rw [if_pos hsome] at hstatus
    have hfree : h'.engine.session? = none := by
      refine Engine.session?_of_not_isActive ?_
      rw [hengine, Engine.isActive, hstatus]
      rfl
    exact ⟨hengine ▸ hfree, fun ops' hops => Engine.run_of_free hfree hops⟩

/-- The payload of the third block of the sample cannot be set.  The acknowledgement of the
second one makes it due; of its six calls five are made, and the failure of the last of
them ends the session. -/
theorem calls_and_failures_sample :
    let fresh := Engine.new default ()
    let link : Link := { script := { parts := [(2, .payload)] } }
    let c := (fresh.admission .sample).completion 1
    let op := Operation.complete c (some .continued)
    let h := (History.ofEngine fresh ({ link } : Traced Link _ _)).run Link.transport.traced
      [.start .sample]
    let state := Engine.after Link.transport [.start .sample] fresh link
    let r := Engine.perform Link.transport op state.1 state.2
    ∃ a acked, h.Due (Link.transport.ready state.2).1 op.event a acked 2 ∧
      ∃ news k failure, a.Hears Link.transport 2 (a.reach acked.card - 2) news k (some failure) ∧
        r.result = .outcome (some (.error (.failed (.dispatch failure)))) ∧
        r.result.error? =
          some (.failed (.dispatch (.resourceExhausted (.build .tooManyOptions)))) ∧
        r.engine.session? = none := by
  intro fresh link c op h state r
  have hrecords : h.records.map (fun r => (r.sent.length, decide (r.Awaits c),
      decide (c.num.toNat + 1 < r.admission.total))) = [(2, true, true)] := by decide +kernel
  obtain ⟨latest, _, hlatest, hfirst, -⟩ := List.map_eq_cons_iff.1 hrecords
  obtain ⟨hlength, hfirst⟩ := Prod.mk.inj hfirst
  obtain ⟨hawaits, hlast⟩ := Prod.mk.inj hfirst
  have hactive : h.engine.isActive = true := by decide +kernel
  have hdue : h.Due (Link.transport.ready state.2).1 op.event latest.admission
      (insert c.num.toNat latest.acked) latest.sent.length :=
    .acknowledgement hactive (by rw [hlatest]; rfl) (of_decide_eq_true hawaits)
      (of_decide_eq_true hlast)
  have herror : r.result.error? =
      some (.failed (.dispatch (.resourceExhausted (.build .tooManyOptions)))) := by
    decide +kernel
  obtain ⟨-, news, k, failure, hhears, -, -, hresult, -, hover⟩ :=
    (calls_and_failures Link.transport (.ofSeed 0) default () link [.start .sample] op).2.2 _ _ _
      hdue
  rw [hlength] at hdue hhears
  cases failure with
  | none => cases (congrArg Answer.error? hresult).symm.trans herror
  | some failure =>
    exact ⟨_, _, hdue, news, k, failure, hhears, hresult, herror, (hover rfl).1⟩

end Blockwise
