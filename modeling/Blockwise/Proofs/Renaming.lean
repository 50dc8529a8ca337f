import Blockwise.Proofs.Alike
import Blockwise.Proofs.History
import Blockwise.Proofs.Outcomes
/-!
# One step under two names

Two engines with the same configuration are given the same event, one on a link of a
transport and one on a link of another that is alike.  Their sessions are the same but for
the names.  What the event comes to is then the same but for the names again
(`Engine.request_pair`, `Engine.report_pair`): the outcome, what is written to the slot,
what the inspector is shown, and the links.

**Names matter in one test.**  The engine looks at a token and a generation only to find
out whether a completion is its own, so this is the one thing that has to be assumed of the
two runs.  The test decides who owns a completion, and everything after it depends on the
number of the block.
-/

namespace Blockwise

variable {ι σ μ β ε : Type}

/-! ## Under another name -/

def Report.under (n : Name) (r : Report) : Report := { r with token := n.token }

/-- The outcome as it would be reported of the session of this name. -/
def Outcome.under (n : Name) : Outcome ε → Outcome ε := Except.map (Report.under n)

def Answer.under (n : Name) : Answer ε → Answer ε
  | .admission result => .admission result
  | .outcome result => .outcome (result.map (Outcome.under n))

def Slot.under (n : Name) : Slot → Slot
  | .active s => .active (s.under n)
  | .idle => .idle
  | .completed => .completed
  | .failed => .failed

/-- The event that is about this completion in place of its own. -/
def Event.about (c : Completion) : Event → Event
  | .blockAckReceived _ => .blockAckReceived c
  | .transferApplied _ code => .transferApplied c code
  | .blockRejected _ code => .blockRejected c code
  | .blockTimedOut _ => .blockTimedOut c
  | .admissionRequested upload => .admissionRequested upload
  | .cancelled => .cancelled

theorem Event.isRequest_about (c : Completion) (event : Event) :
    (event.about c).isRequest = event.isRequest := by
  cases event <;> rfl

theorem Event.about_of_completion? {event : Event} {c : Completion}
    (hcompletion : event.completion? = some c) : event.about c = event := by
  cases event <;> cases hcompletion <;> rfl

theorem Slot.session?_under (n : Name) (slot : Slot) :
    (slot.under n).session? = slot.session?.map (Session.under n) := by
  cases slot <;> rfl

theorem Slot.status_under (n : Name) (slot : Slot) : (slot.under n).status = slot.status := by
  cases slot <;> rfl

theorem Operation.answer_under (n : Name) (op : Operation) (outcome : Option (Outcome ε)) :
    op.answer (outcome.map (Outcome.under n)) = (op.answer outcome).under n := by
  obtain _ | _ | _ := outcome <;> cases op <;> rfl

theorem Answer.isRefusal_under (n : Name) (a : Answer ε) : (a.under n).isRefusal = a.isRefusal := by
  obtain _ | (_ | _ | _) := a <;> rfl

/-- Whether an upload is acceptable does not depend on the name of its session. -/
theorem Session.ofUpload_under (upload : Upload) (config : Config) (n m : Name) :
    ofUpload upload config m.token m.generation =
      (ofUpload upload config n.token n.generation).map (Session.under m) := by
  unfold ofUpload
  cases chooseSize upload config with
  | error reason => rfl
  | ok size =>
    simp only [bind, Except.bind, pure, Except.pure, throw, throwThe, MonadExceptOf.throw]
    split
    · rfl
    split
    · rfl
    split
    · rfl
    split <;> rfl

/-- The name that the next session will have. -/
def Engine.opens (e : Engine ι) : Name where
  token := e.source.next.1
  generation := e.generation + 1

/-! ## Filling -/

/-- The inspector after it was shown these digests. -/
def observeAll [Inspector ι] (digests : List Digest) (inspector : ι) : ι :=
  digests.foldl (fun inspector digest => Inspector.observe digest inspector) inspector

theorem observeAll_concat [Inspector ι] (digests : List Digest) (digest : Digest) (inspector : ι) :
    observeAll (digests ++ [digest]) inspector =
      Inspector.observe digest (observeAll digests inspector) := List.foldl_concat _ _ _ _

/-- What two filling loops leave behind is the same but for the names. -/
structure Filled.Pair [Inspector ι] (R : σ → σ → Prop) (n n' : Name) (inspector inspector' : ι)
    (f f' : Filled ι σ ε) : Prop where
  result_eq : f.result = f'.result
  session : ∃ s : Session, f.session = s.under n ∧ f'.session = s.under n'
  inspector : ∃ digests, f.inspector = observeAll digests inspector ∧
    f'.inspector = observeAll digests inspector'
  link : R f.link f'.link

section

variable [Inspector ι] {t t' : Transport σ μ β ε} {R : σ → σ → Prop} {M : μ → μ → Prop}
  {n n' : Name} {l l' : σ}

/-- Filling goes alike under both names. -/
theorem Transport.Alike.fill_pair (h : t.Alike t' R M n n') (inspector inspector' : ι)
    (s : Session) (digests : List Digest) (hl : R l l') (notices notices' : Array Notice) :
    Filled.Pair R n n' inspector inspector'
      ((s.under n).fill t (observeAll digests inspector) l notices)
      ((s.under n').fill t' (observeAll digests inspector') l' notices') := by
  -- Every round sends a block that was not sent before.
  induction hk : s.window.unsent using Nat.strongRecOn generalizing s digests l l' notices notices'
  with
  | ind k ih =>
    by_cases hsend : s.window.CanSend
    · cases hblock : s.block? s.window.next with
      | none =>
        rw [Session.fill_of_block?_none (s := s.under n) hsend hblock,
          Session.fill_of_block?_none (s := s.under n') hsend hblock]
        exact ⟨rfl, ⟨s, rfl, rfl⟩, ⟨digests, rfl, rfl⟩, hl⟩
      | some b =>
        have hdeliver := h.deliver s b l l' hl
        generalize hr : (s.under n).deliver t b l = r at hdeliver
        generalize hr' : (s.under n').deliver t' b l' = r' at hdeliver
        cases hdeliver with
        | error hl =>
          rw [Session.fill_of_deliver_error (s := s.under n) hsend hblock hr,
            Session.fill_of_deliver_error (s := s.under n') hsend hblock hr']
          exact ⟨rfl, ⟨s, rfl, rfl⟩, ⟨digests, rfl, rfl⟩, hl⟩
        | ok hl _ =>
          rw [Session.fill_of_deliver_ok (s := s.under n) hsend hblock hr,
            Session.fill_of_deliver_ok (s := s.under n') hsend hblock hr', ← observeAll_concat,
            ← observeAll_concat]
          have hless := Window.unsent_dispatch hsend
          exact ih s.window.dispatch.unsent (by omega) { s with window := s.window.dispatch }
            (digests ++ [b.digest]) hl _ _ rfl
    · rw [Session.fill_of_not_canSend (s := s.under n) hsend,
        Session.fill_of_not_canSend (s := s.under n') hsend]
      exact ⟨rfl, ⟨s, rfl, rfl⟩, ⟨digests, rfl, rfl⟩, hl⟩

end

/-! ## Events -/

/-- What an event leaves behind in two runs is the same but for the names `n` and `n'`.
Where the slot is left as it was, the event is no request, or one that is refused. -/
structure Reaction.Pair [Inspector ι] (R : σ → σ → Prop) (n n' : Name) (event : Event)
    (e e' : Engine ι) (r r' : Reaction ι σ (Option (Outcome ε))) : Prop where
  result : ∃ outcome : Option (Outcome ε), r.result = outcome.map (Outcome.under n) ∧
    r'.result = outcome.map (Outcome.under n')
  slot : (r.engine.slot = e.slot ∧ r'.engine.slot = e'.slot ∧
      (event.isRequest = true → (Answer.outcome r.result).isRefusal = true)) ∨
    ∃ slot : Slot, r.engine.slot = slot.under n ∧ r'.engine.slot = slot.under n'
  inspector : ∃ digests, r.engine.inspector = observeAll digests e.inspector ∧
    r'.engine.inspector = observeAll digests e'.inspector
  link : R r.link r'.link

/-- The engines fall back to the same configuration, and their sessions are the same but
for the names `n` and `n'`. -/
structure Engine.Pair (n n' : Name) (e e' : Engine ι) : Prop where
  config_eq : e.config = e'.config
  session : ∃ s : Option Session, e.session? = s.map (Session.under n) ∧
    e'.session? = s.map (Session.under n')

section

variable [Inspector ι] {R : σ → σ → Prop} {n n' m m' : Name} {e e' : Engine ι} {l l' : σ}

/-- Where nothing but the outcome is given, nothing else happens. -/
theorem Reaction.Pair.of_kept {event : Event} {outcome : Option (Outcome ε)} {l l' : σ}
    {e₁ e₁' : Engine ι} {notices notices' : Array Notice}
    (hoff : ∀ n, outcome.map (Outcome.under n) = outcome)
    (hrefusal : event.isRequest = true → (Answer.outcome outcome).isRefusal = true)
    (hslot : e₁.slot = e.slot) (hslot' : e₁'.slot = e'.slot)
    (hinspector : e₁.inspector = e.inspector) (hinspector' : e₁'.inspector = e'.inspector)
    (hl : R l l') :
    Reaction.Pair R n n' event e e' ⟨outcome, e₁, l, notices⟩ ⟨outcome, e₁', l', notices'⟩ where
  result := ⟨outcome, (hoff n).symm, (hoff n').symm⟩
  slot := .inl ⟨hslot, hslot', hrefusal⟩
  inspector := ⟨[], hinspector, hinspector'⟩
  link := hl

/-- A request is refused in both runs or in neither. -/
theorem Reaction.Pair.isRefusal_eq {event : Event} {r r' : Reaction ι σ (Option (Outcome ε))}
    (h : Reaction.Pair R n n' event e e' r r') :
    (Answer.outcome r'.result).isRefusal = (Answer.outcome r.result).isRefusal := by
  obtain ⟨outcome, hresult, hresult'⟩ := h.result
  rw [hresult, hresult']
  exact ((Answer.outcome outcome).isRefusal_under n').trans
    ((Answer.outcome outcome).isRefusal_under n).symm

variable {t t' : Transport σ μ β ε} {M : μ → μ → Prop}

namespace Engine

omit [Inspector ι] in
/-- The next session is the same but for its name, or missing for the same reason. -/
theorem sessionOf_pair (hconfig : e.config = e'.config) (upload : Upload) :
    (∃ reason, e.sessionOf upload = .error reason ∧ e'.sessionOf upload = .error reason) ∨
      ∃ s : Session, e.sessionOf upload = .ok (s.under e.opens) ∧
        e'.sessionOf upload = .ok (s.under e'.opens) := by
  have hself : e.sessionOf upload = (e.sessionOf upload).map (Session.under e.opens) :=
    Session.ofUpload_under upload e.config e.opens e.opens
  have hother : e'.sessionOf upload = (e.sessionOf upload).map (Session.under e'.opens) := by
    unfold sessionOf
    rw [← hconfig]
    exact Session.ofUpload_under upload e.config e.opens e'.opens
  cases h : e.sessionOf upload with
  | error reason => exact .inl ⟨reason, rfl, by rw [hother, h]; rfl⟩
  | ok s => exact .inr ⟨s, by rw [h] at hself; exact hself, by rw [hother, h]; rfl⟩

/-- A request is answered alike, the new sessions having the names `m` and `m'`. -/
theorem request_pair (halike : t.Alike t' R M m m') (hpair : Pair n n' e e') (hl : R l l')
    (upload : Upload)
    (hopen : (Answer.outcome (handle t (.admissionRequested upload) e l).result).isRefusal = false →
      m = e.opens ∧ m' = e'.opens) :
    Reaction.Pair R m m' (.admissionRequested upload) e e'
      (handle t (.admissionRequested upload) e l)
      (handle t' (.admissionRequested upload) e' l') := by
  obtain ⟨hconfig, s, hs, hs'⟩ := hpair
  cases s with
  | some s =>
    rw [handle, handle, start, start, hs, hs']
    exact .of_kept (fun _ => rfl) (fun _ => rfl) rfl rfl rfl rfl hl
  | none =>
    obtain ⟨hreadyeq, hready⟩ := halike.ready hl
    cases hasked : (t.ready l).1 with
    | false =>
      rw [handle, handle, start_of_not_ready hs hasked,
        start_of_not_ready hs' (hreadyeq.symm.trans hasked)]
      exact .of_kept (fun _ => rfl) (fun _ => rfl) rfl rfl rfl rfl hready
    | true =>
      rw [handle, start_of_ready hs hasked] at hopen ⊢
      rw [handle, start_of_ready hs' (hreadyeq.symm.trans hasked)]
      obtain ⟨reason, hsession, hsession'⟩ | ⟨s, hsession, hsession'⟩ :=
        sessionOf_pair hconfig upload
      · rw [hsession, hsession']
        exact .of_kept (fun _ => rfl) (fun _ => rfl) rfl rfl rfl rfl hready
      · rw [hsession] at hopen ⊢
        rw [hsession']
        dsimp only at hopen ⊢
        obtain ⟨rfl, rfl⟩ : m = e.opens ∧ m' = e'.opens := by
          refine hopen ?_
          cases ((e.opening (s.under e.opens) (t.ready l).2).fill t).result <;> rfl
        have hfill : Filled.Pair R e.opens e'.opens e.inspector e'.inspector
            ((e.opening (s.under e.opens) (t.ready l).2).fill t)
            ((e'.opening (s.under e'.opens) (t'.ready l').2).fill t') :=
          halike.fill_pair e.inspector e'.inspector s [] hready _ _
        generalize (e.opening (s.under e.opens) (t.ready l).2).fill t = f at hfill ⊢
        generalize (e'.opening (s.under e'.opens) (t'.ready l').2).fill t' = f' at hfill ⊢
        obtain ⟨hresult, ⟨s₁, hs₁, hs₁'⟩, hinspector, hlink⟩ := hfill
        rw [← hresult]
        cases f.result with
        | ok u =>
          exact ⟨⟨none, rfl, rfl⟩,
            .inr ⟨.active s₁, congrArg Slot.active hs₁, congrArg Slot.active hs₁'⟩, hinspector,
            hlink⟩
        | error failure =>
          exact ⟨⟨some (.error (.dispatch failure)), rfl, rfl⟩, .inr ⟨.failed, rfl, rfl⟩,
            hinspector, hlink⟩

/-- A session that fails does so alike, whatever was shown to the inspectors before. -/
theorem fail_pair {event : Event} {e₁ e₁' : Engine ι} (cause : Cause ε)
    (notices notices' : Array Notice)
    (hinspector : ∃ digests, e₁.inspector = observeAll digests e.inspector ∧
      e₁'.inspector = observeAll digests e'.inspector) (hl : R l l') :
    Reaction.Pair R n n' event e e' (fail cause e₁ l notices) (fail cause e₁' l' notices') where
  result := ⟨some (.error (.failed cause)), rfl, rfl⟩
  slot := .inr ⟨.failed, rfl, rfl⟩
  inspector := hinspector
  link := hl

/-- An acknowledgement that the active session owns is answered alike. -/
theorem acknowledged_pair (halike : t.Alike t' R M n n') (s : Session) (num : UInt32)
    (hl : R l l') (event : Event) :
    Reaction.Pair R n n' event e e' (acknowledged t (s.under n) num e l)
      (acknowledged t' (s.under n') num e' l') := by
  by_cases hlast : s.window.IsLast num
  · rw [acknowledged, acknowledged, if_pos (by exact hlast), if_pos (by exact hlast)]
    exact fail_pair _ _ _ ⟨[], rfl, rfl⟩ hl
  · rw [acknowledged_of_not_isLast (by exact hlast), acknowledged_of_not_isLast (by exact hlast)]
    have hfill : Filled.Pair R n n' e.inspector e'.inspector
        ((e.advancing (s.under n) num l).fill t) ((e'.advancing (s.under n') num l').fill t') :=
      halike.fill_pair e.inspector e'.inspector { s with window := s.window.acknowledge num } [] hl
        _ _
    dsimp only
    generalize (e.advancing (s.under n) num l).fill t = f at hfill ⊢
    generalize (e'.advancing (s.under n') num l').fill t' = f' at hfill ⊢
    obtain ⟨hresult, ⟨s₁, hs₁, hs₁'⟩, hinspector, hlink⟩ := hfill
    rw [← hresult]
    cases f.result with
    | ok u =>
      exact ⟨⟨none, rfl, rfl⟩,
        .inr ⟨.active s₁, congrArg Slot.active hs₁, congrArg Slot.active hs₁'⟩, hinspector, hlink⟩
    | error failure => exact fail_pair _ _ _ hinspector hlink

/-- The application of the body is reported alike. -/
theorem applied_pair (s : Session) (num num' : UInt32) (code : Code) (hl : R l l') (event : Event) :
    Reaction.Pair (ε := ε) R n n' event e e' (applied (s.under n) num code e l)
      (applied (s.under n') num' code e' l') where
  result := ⟨some (.ok ⟨s.token, s.window.total, s.body.size, code⟩), rfl, rfl⟩
  slot := .inr ⟨.completed, rfl, rfl⟩
  inspector := ⟨[], rfl, rfl⟩
  link := hl

/-- Completions that are owned alike are ignored in both runs, or go on alike if what
follows for the owners does. -/
theorem forOwner_pair {event : Event} (hrequest : event.isRequest = false) {c c' : Completion}
    (howner : ∃ s : Option Session, e.owner? c = s.map (Session.under n) ∧
      e'.owner? c' = s.map (Session.under n'))
    {continuation continuation' : Session → Reaction ι σ (Option (Outcome ε))}
    (hpair : ∀ s : Session, Reaction.Pair R n n' event e e' (continuation (s.under n))
      (continuation' (s.under n'))) (hl : R l l') :
    Reaction.Pair R n n' event e e' (forOwner c e l continuation)
      (forOwner c' e' l' continuation') := by
  obtain ⟨s, hs, hs'⟩ := howner
  rw [forOwner, forOwner, hs, hs']
  cases s with
  | none =>
    exact .of_kept (fun _ => rfl) (fun h => absurd (hrequest.symm.trans h) Bool.false_ne_true)
      rfl rfl rfl rfl hl
  | some s => exact hpair s

omit [Inspector ι] in
/-- Completions are owned alike if sessions that are the same but for the names own them
alike. -/
theorem owner?_pair {c c' : Completion} {s : Option Session}
    (hs : e.session? = s.map (Session.under n)) (hs' : e'.session? = s.map (Session.under n'))
    (howns : ∀ s₁ ∈ s, (s₁.under n).Owns c ↔ (s₁.under n').Owns c') :
    ∃ s : Option Session, e.owner? c = s.map (Session.under n) ∧
      e'.owner? c' = s.map (Session.under n') := by
  cases s with
  | none => exact ⟨none, by rw [owner?, hs]; rfl, by rw [owner?, hs']; rfl⟩
  | some s =>
    have hiff := howns s rfl
    by_cases hc : (s.under n).Owns c
    · exact ⟨some s, owner?_eq_some_iff.2 ⟨hs, hc⟩, owner?_eq_some_iff.2 ⟨hs', hiff.1 hc⟩⟩
    · refine ⟨none, owner?_eq_none_iff.2 ?_, owner?_eq_none_iff.2 ?_⟩
      · intro s₁ hs₁
        cases hs.symm.trans hs₁
        exact hc
      · intro s₁ hs₁
        cases hs'.symm.trans hs₁
        exact fun hc' => hc (hiff.2 hc')

/-- An event that is no request is answered alike, if the completions that it is about are
for the same block and are owned alike. -/
theorem report_pair (halike : t.Alike t' R M n n') (hpair : Pair n n' e e') (hl : R l l')
    {event : Event} (hrequest : event.isRequest = false) (c c' : Completion)
    (howner : event.completion?.isSome = true → c.num = c'.num ∧
      ∃ s : Option Session, e.owner? c = s.map (Session.under n) ∧
        e'.owner? c' = s.map (Session.under n')) :
    Reaction.Pair R n n' (event.about c) e e' (handle t (event.about c) e l)
      (handle t' (event.about c') e' l') := by
  cases event with
  | admissionRequested upload => cases hrequest
  | cancelled =>
    obtain ⟨-, s, hs, hs'⟩ := hpair
    show Reaction.Pair _ _ _ _ _ _ (handle t .cancelled e l) (handle t' .cancelled e' l')
    rw [handle, handle, cancel, cancel, hs, hs']
    cases s with
    | none => exact .of_kept (fun _ => rfl) (by rintro ⟨⟩) rfl rfl rfl rfl hl
    | some s => exact fail_pair _ _ _ ⟨[], rfl, rfl⟩ hl
  | blockAckReceived c₀ =>
    obtain ⟨hnum, howner⟩ := howner rfl
    rw [Event.about, Event.about, handle, handle, ← hnum]
    exact forOwner_pair rfl howner (fun s => acknowledged_pair halike s c.num hl _) hl
  | transferApplied c₀ code =>
    obtain ⟨-, howner⟩ := howner rfl
    exact forOwner_pair rfl howner (fun s => applied_pair s c.num c'.num code hl _) hl
  | blockRejected c₀ code =>
    obtain ⟨-, howner⟩ := howner rfl
    exact forOwner_pair rfl howner (fun s => fail_pair _ _ _ ⟨[], rfl, rfl⟩ hl) hl
  | blockTimedOut c₀ =>
    obtain ⟨-, howner⟩ := howner rfl
    exact forOwner_pair rfl howner (fun s => fail_pair _ _ _ ⟨[], rfl, rfl⟩ hl) hl

end Engine

end

end Blockwise
