import Blockwise.Proofs.Change
import Blockwise.Proofs.Receiver
/-!
# End-to-end integrity

An engine and a receiver, with an unreliable network between them.  What the engine
sent may come late, in any order, again, or never, and a late block of a session that
is over may make the receiver begin anew in the middle of the next.  What the engine
is told of a message is what the receiver answered to it, or that there was no
response; when it is told, and how often, is open.

**One invariant for both ends** (`Network.Sound`).  What the receiver has is the
beginning of the body of some session, the one with its token, and what it applied
is a whole one.  Distinct tokens make it one session: blocks of another never come in
turn.

* `Network` — the engine, the receiver, and what went between them
* `Network.Step` — what may happen next
* `end_to_end_integrity` — what was applied was asked for, and success is not
  reported without it
-/

namespace Blockwise

variable {ι σ μ β ε : Type}

/-- The event that an exchange ended is that the body was applied only where it ended
by a code that says so. -/
theorem Event.completed_eq_transferApplied {c c' : Completion} {status : Option Code}
    {code : Code} (h : completed c status = transferApplied c' code) :
    c = c' ∧ status = some code ∧ code.verdict = .applied := by
  cases status with
  | none => cases h
  | some code' =>
    rw [completed] at h
    cases hverdict : code'.verdict with
    | applied =>
      rw [hverdict] at h
      cases h
      exact ⟨rfl, rfl, hverdict⟩
    | continued =>
      rw [hverdict] at h
      cases h
    | rejected =>
      rw [hverdict] at h
      cases h

/-- An answer that is an outcome is that of the event. -/
theorem Operation.outcome_of_answer {op : Operation} {outcome result : Option (Outcome ε)}
    (h : op.answer outcome = .outcome result) : outcome = result := by
  have hadmission : ∀ upload, (start upload).answer outcome ≠ .outcome result := by
    intro upload
    rcases outcome with _ | _ | _ <;> rintro ⟨⟩
  cases op with
  | start upload => exact absurd h (hadmission upload)
  | startUpload path body format => exact absurd h (hadmission { path, body, format })
  | handle event => exact Answer.outcome.inj h
  | complete completion status => exact Answer.outcome.inj h
  | cancel => exact Answer.outcome.inj h

/-- An engine and a receiver, and what went between them. -/
structure Network (ι σ : Type) where
  /-- The engine, with all that it sent. -/
  history : History ι σ
  receiver : Receiver := {}
  /-- What the receiver answered: to which message, by its place in the ledger, and by
  which code. -/
  answers : List (ℕ × Code) := []
  /-- The uploads that were admitted. -/
  admitted : List Upload := []

namespace Network

/-- The network that begins with this engine and this link. -/
def ofEngine (e : Engine ι) (link : σ) : Network ι σ where
  history := .ofEngine e link

/-- The tokens of the sessions. -/
def tokens (x : Network ι σ) : List Token := x.history.records.map (·.admission.token)

/-- The network after the message at place `i` of the ledger has reached the
receiver. -/
def deliver (x : Network ι σ) (i : ℕ) : Network ι σ :=
  match x.history.link.taken[i]? with
  | none => x
  | some p =>
    let (receiver, code) := x.receiver.receive p
    { x with receiver, answers := x.answers ++ [(i, code)] }

variable [Inspector ι]

/-- The network after an operation of the engine. -/
def operate (t : Transport σ μ β ε) (x : Network ι σ) (op : Operation) : Network ι σ :=
  let answer := (Engine.perform t op x.history.engine x.history.link.link).result
  { x with
    history := x.history.step t op
    admitted :=
      match op.event with
      | .admissionRequested upload =>
        if answer.admits op then x.admitted ++ [upload] else x.admitted
      | .blockAckReceived _ | .transferApplied .. | .blockRejected .. | .blockTimedOut _
      | .cancelled => x.admitted }

omit [Inspector ι]

/-- What may be asked of the engine, and reported to it: an upload may be asked for,
or given up, and of a message it may be reported what the receiver answered to it, or
that there was no response. -/
inductive Allows (x : Network ι σ) (op : Operation) : Prop
  | request {upload : Upload} (hevent : op.event = .admissionRequested upload)
  | cancel (hevent : op.event = .cancelled)
  | report {i : ℕ} {p : Parcel} {status : Option Code}
      (htaken : x.history.link.taken[i]? = some p)
      (hstatus : ∀ code ∈ status, (i, code) ∈ x.answers)
      (hevent : op.event = .completed p.completion status)

variable [Inspector ι]

/-- What may happen next. -/
inductive Step (t : Transport σ μ β ε) (x : Network ι σ) : Network ι σ → Prop
  | deliver (i : ℕ) : Step t x (x.deliver i)
  | operate {op : Operation} (hallows : x.Allows op) : Step t x (x.operate t op)

section

variable (t : Transport σ μ β ε) (x : Network ι σ) (op : Operation)

/-- An upload that was admitted stays so. -/
theorem admitted_subset_operate : x.admitted ⊆ (x.operate t op).admitted := by
  unfold operate
  dsimp only
  split
  · split
    · exact List.subset_append_left _ _
    · exact List.Subset.refl _
  all_goals exact List.Subset.refl _

variable {t x op}

theorem mem_admitted_operate {upload : Upload} (hevent : op.event = .admissionRequested upload)
    (hadmits : (Engine.perform t op x.history.engine x.history.link.link).result.admits op = true) :
    upload ∈ (x.operate t op).admitted := by
  unfold operate
  dsimp only
  rw [hevent]
  dsimp only
  rw [if_pos hadmits]
  exact List.mem_append_right _ (List.mem_singleton_self _)

end

/-! ## What both ends agree on -/

omit [Inspector ι]

/-- What the receiver has, applied and answered follows from what the engine sent. -/
structure Sound (x : Network ι σ) : Prop where
  history : x.history.Sound
  /-- What the receiver has is the beginning of the body of the session with its
  token. -/
  holds : ∀ token, x.receiver.token? = some token →
    ∃ r ∈ x.history.records, r.admission.token = token ∧ x.receiver.Holds r.admission
  /-- What it applied is the body of a session that was sent to the end. -/
  applied : ∀ q ∈ x.receiver.applied, ∃ r ∈ x.history.records,
    q = (r.admission.token, r.admission.upload.body) ∧ r.admission.total ≤ r.sent.length
  /-- To no message did it answer that it applied the body without doing so. -/
  answers : ∀ q ∈ x.answers, q.2.verdict = .applied → ∃ p,
    x.history.link.taken[q.1]? = some p ∧ ∃ body, (p.token, body) ∈ x.receiver.applied
  /-- Only uploads that were admitted are sent to the end. -/
  admitted : ∀ r ∈ x.history.records, r.admission.total ≤ r.sent.length →
    r.admission.upload ∈ x.admitted
  active : ∀ s, x.history.engine.session? = some s → ∀ r ∈ x.history.records.head?,
    r.admission.upload ∈ x.admitted

namespace Sound

variable {x : Network ι σ} {r r' : Record} {p : Parcel} {i : ℕ}

theorem ofEngine {e : Engine ι} (hfree : e.session? = none) (link : σ) :
    (Network.ofEngine e link).Sound where
  history := .ofEngine hfree
  holds := by
    rintro token ⟨⟩
  applied := by
    rintro q ⟨⟩
  answers := by
    rintro q ⟨⟩
  admitted := by
    rintro r ⟨⟩
  active := by
    intro s hactive
    cases hfree.symm.trans hactive

/-- Sessions with the same token are the same. -/
theorem record_eq (htokens : x.tokens.Nodup) (hr : r ∈ x.history.records)
    (hr' : r' ∈ x.history.records) (htoken : r.admission.token = r'.admission.token) : r = r' :=
  List.inj_on_of_nodup_map htokens hr hr' htoken

/-- A message in the ledger is one that the admission of some session settles. -/
theorem exists_parcel (hx : x.Sound) (hp : x.history.link.taken[i]? = some p) :
    ∃ r ∈ x.history.records, ∃ k < r.sent.length, r.admission.parcel k = p := by
  have hmem := List.mem_of_getElem? hp
  rw [hx.history.taken_eq] at hmem
  obtain ⟨r, hr, hsent⟩ := List.mem_flatMap.1 hmem
  rw [List.mem_reverse] at hr
  obtain ⟨k, hk, rfl⟩ := (hx.history.record_sound r hr).1.mem_sent_iff.1 hsent
  exact ⟨r, hr, k, hk, rfl⟩

/-- The network after the receiver became `receiver` and answered by `code`. -/
theorem answered (hx : x.Sound) {receiver : Receiver} {code : Code}
    (hp : x.history.link.taken[i]? = some p)
    (hholds : ∀ token, receiver.token? = some token →
      ∃ r ∈ x.history.records, r.admission.token = token ∧ receiver.Holds r.admission)
    (happlied : ∀ q ∈ receiver.applied, q ∈ x.receiver.applied ∨
      ∃ r ∈ x.history.records, q = (r.admission.token, r.admission.upload.body) ∧
        r.admission.total ≤ r.sent.length)
    (hsubset : x.receiver.applied ⊆ receiver.applied)
    (hcode : code.verdict = .applied → ∃ body, (p.token, body) ∈ receiver.applied) :
    Sound { x with receiver, answers := x.answers ++ [(i, code)] } where
  history := hx.history
  holds := hholds
  applied q hq := (happlied q hq).elim (hx.applied q) id
  answers := by
    intro q hq hverdict
    rcases List.mem_append.1 hq with hq | hq
    · obtain ⟨p', hp', body, hbody⟩ := hx.answers q hq hverdict
      exact ⟨p', hp', body, hsubset hbody⟩
    · obtain rfl := List.mem_singleton.1 hq
      exact ⟨p, hp, hcode hverdict⟩
  admitted := hx.admitted
  active := hx.active

/-- A message that reaches the receiver is the next block of the body that it has the
beginning of, or the first of another, or is ignored. -/
theorem deliver (hx : x.Sound) (htokens : x.tokens.Nodup) (i : ℕ) : (x.deliver i).Sound := by
  unfold Network.deliver
  cases hp : x.history.link.taken[i]? with
  | none => exact hx
  | some p =>
    dsimp only
    obtain ⟨r, hr, k, hk, rfl⟩ := hx.exists_parcel hp
    have hsound := (hx.history.record_sound r hr).1
    -- There is one session with the token of the message.
    have hholds : x.receiver.token? = some r.admission.token → x.receiver.Holds r.admission := by
      intro htoken
      obtain ⟨r', hr', htoken', hholds⟩ := hx.holds _ htoken
      rwa [record_eq htokens hr' hr htoken'] at hholds
    have hreceive := Receiver.receive_parcel hsound.valid (hk.trans_le hsound.length_le) hholds
    generalize x.receiver.receive (r.admission.parcel k) = reply at hreceive
    obtain ⟨receiver, code⟩ := reply
    have hnew : receiver.Holds r.admission → ∀ token, receiver.token? = some token →
        ∃ r ∈ x.history.records, r.admission.token = token ∧ receiver.Holds r.admission := by
      intro hholds' token htoken
      exact ⟨r, hr, Option.some.inj (hholds'.token?_eq.symm.trans htoken), hholds'⟩
    rcases hreceive with hignored | htakes
    · cases hignored
      refine hx.answered hp hx.holds (fun q hq => .inl hq) (List.Subset.refl _) fun h => ?_
      cases h
    · cases htakes with
      | stored hholds' hnext happlied =>
        refine hx.answered hp (hnew hholds') ?_ ?_ fun h => by cases h
        · rw [happlied]
          exact fun q hq => .inl hq
        · rw [happlied]
          exact List.Subset.refl _
      | completed hholds' hnext htotal happlied =>
        refine hx.answered hp (hnew hholds') ?_ ?_ fun _ => ?_
        · rw [happlied]
          intro q hq
          refine (List.mem_append.1 hq).imp_right fun hq => ?_
          exact ⟨r, hr, List.mem_singleton.1 hq, htotal ▸ hk⟩
        · rw [happlied]
          exact List.subset_append_left _ _
        · rw [happlied]
          exact ⟨_, List.mem_append_right _ (List.mem_singleton_self _)⟩

variable [Inspector ι] {t : Transport σ μ β ε} {op : Operation}

omit [Inspector ι] in
/-- After a change of records, an upload that was sent to the end was admitted, and so
was the active one. -/
theorem admitted_of_change (hx : x.Sound) {event : Event} {outcome : Option (Outcome ε)}
    {h' : History ι σ} {admitted : List Upload}
    (hchange : History.Change x.history event outcome h') (hsubset : x.admitted ⊆ admitted)
    (hnew : ∀ upload, event = .admissionRequested upload → outcome = none → upload ∈ admitted) :
    (∀ r ∈ h'.records, r.admission.total ≤ r.sent.length → r.admission.upload ∈ admitted) ∧
      ∀ s, h'.engine.session? = some s → ∀ r ∈ h'.records.head?, r.admission.upload ∈ admitted := by
  have hkept : ∀ r ∈ x.history.records, r.admission.total ≤ r.sent.length →
      r.admission.upload ∈ admitted := fun r hr hle => hsubset (hx.admitted r hr hle)
  -- The session goes on, or ends, with more blocks sent.
  have hhead : ∀ {s : Session} {r : Record} {rest : List Record} {news : List Parcel}
      {acked : Finset ℕ}, x.history.engine.session? = some s → x.history.records = r :: rest →
      h'.records = { r with sent := r.sent ++ news, acked } :: rest →
      (∀ r ∈ h'.records, r.admission.total ≤ r.sent.length → r.admission.upload ∈ admitted) ∧
        ∀ r ∈ h'.records.head?, r.admission.upload ∈ admitted := by
    intro s r rest news acked hactive hrecords hrecords'
    have hupload : r.admission.upload ∈ admitted :=
      hsubset (hx.active s hactive r (by rw [hrecords]; rfl))
    rw [hrecords']
    refine ⟨List.forall_mem_cons.2 ⟨fun _ => hupload, fun r' hr' => ?_⟩, ?_⟩
    · exact hkept r' (by rw [hrecords]; exact List.mem_cons_of_mem _ hr')
    · rintro r' ⟨⟩
      exact hupload
  cases hchange with
  | refused _ hsession _ _ hrecords =>
    rw [hsession, hrecords]
    exact ⟨hkept, fun s hactive r hr => hsubset (hx.active s hactive r hr)⟩
  | kept => exact ⟨hkept, fun s hactive r hr => hsubset (hx.active s hactive r hr)⟩
  | admitted _ _ _ hrecords =>
    have hupload := hnew _ rfl rfl
    rw [hrecords]
    refine ⟨List.forall_mem_cons.2 ⟨fun _ => hupload, hkept⟩, ?_⟩
    rintro s - r ⟨⟩
    exact hupload
  | aborted _ hsession _ hrecords hnews =>
    rw [hrecords, hsession]
    refine ⟨List.forall_mem_cons.2 ⟨fun hle => absurd hle (Nat.not_le.2 hnews), hkept⟩, ?_⟩
    rintro s ⟨⟩
  | advanced howner _ _ hrecords hrecords' =>
    obtain ⟨hall, hactive⟩ := hhead (Engine.owner?_eq_some_iff.1 howner).1 hrecords hrecords'
    exact ⟨hall, fun _ _ => hactive⟩
  | completed _ hsession _ _ hrecords =>
    rw [hrecords, hsession]
    refine ⟨hkept, ?_⟩
    rintro s ⟨⟩
  | failed _ hactive _ _ _ hrecords hrecords' =>
    obtain ⟨hall, hactive⟩ := hhead hactive hrecords hrecords'
    exact ⟨hall, fun _ _ => hactive⟩

/-- What the receiver has stays the beginning of a body, whatever is asked of the
engine. -/
theorem operate (hx : x.Sound) (t : Transport σ μ β ε) (op : Operation) :
    (x.operate t op).Sound := by
  obtain ⟨outcome, hanswer, hchange⟩ := hx.history.step_change (t := t) op
  have hs' : (x.history.step t op).Sound := hx.history.step op
  rw [History.result_perform] at hanswer
  have hnew : ∀ upload, op.event = .admissionRequested upload → outcome = none →
      upload ∈ (x.operate t op).admitted := by
    rintro upload hevent rfl
    refine mem_admitted_operate hevent ?_
    rw [hanswer, Operation.admits_answer_none, hevent]
    rfl
  obtain ⟨hadmitted, hactive⟩ :=
    hx.admitted_of_change hchange (admitted_subset_operate t x op) hnew
  refine ⟨hs', ?_, ?_, ?_, hadmitted, hactive⟩
  · intro token htoken
    obtain ⟨r, hr, hrtoken, hholds⟩ := hx.holds token htoken
    obtain ⟨r', hr', hadmission, -⟩ := hchange.exists_record hr
    exact ⟨r', hr', hadmission ▸ hrtoken, hadmission ▸ hholds⟩
  · intro q hq
    obtain ⟨r, hr, rfl, hle⟩ := hx.applied q hq
    obtain ⟨r', hr', hadmission, hsent⟩ := hchange.exists_record hr
    exact ⟨r', hr', by rw [hadmission], hadmission ▸ hle.trans hsent.length_le⟩
  · intro q hq hverdict
    obtain ⟨p, hp, hbody⟩ := hx.answers q hq hverdict
    obtain ⟨hlt, rfl⟩ := List.getElem?_eq_some_iff.1 hp
    exact ⟨_, List.prefix_iff_getElem?.1 (hchange.taken_prefix hx.history hs') _ hlt, hbody⟩

/-- Wherever the network comes, what the receiver has, applied and answered follows
from what the engine sent, if the tokens are distinct. -/
theorem reaches {y : Network ι σ} (hx : x.Sound) (h : Relation.ReflTransGen (Step t) x y) :
    y.history.Sound ∧ (y.tokens.Nodup → y.Sound) := by
  induction h with
  | refl => exact ⟨hx.history, fun _ => hx⟩
  | @tail y z _ hstep ih =>
    obtain ⟨hs, hy⟩ := ih
    cases hstep with
    | deliver i =>
      have hhistory : (y.deliver i).history = y.history := by
        unfold Network.deliver
        split <;> rfl
      unfold tokens
      rw [hhistory]
      exact ⟨hs, fun htokens => (hy htokens).deliver htokens i⟩
    | @operate op hallows =>
      refine ⟨hs.step op, fun htokens => (hy ?_).operate t op⟩
      -- The tokens that were there are still there.
      have hsuffix := (hs.admissions_suffix_run (t := t) [op]).map Admission.token
      unfold History.admissions at hsuffix
      rw [List.map_map, List.map_map] at hsuffix
      exact htokens.sublist hsuffix.sublist

/-- Success is reported only when the receiver has applied the body of the active
session. -/
theorem applied_of_report (hx : x.Sound) (htokens : x.tokens.Nodup) (hallows : x.Allows op)
    {report : Report}
    (hresult : (Engine.perform t op x.history.engine x.history.link.link).result =
      .outcome (some (.ok report))) :
    ∃ s ∈ x.history.engine.session?, report.token = s.token ∧
      (s.token, s.body) ∈ x.receiver.applied := by
  obtain ⟨outcome, hanswer, hchange⟩ := hx.history.step_change (t := t) op
  rw [History.result_perform, hresult] at hanswer
  obtain rfl := Operation.outcome_of_answer hanswer.symm
  generalize hevent : op.event = event at hchange
  cases hchange with
  | @completed c code s h' howner =>
    obtain ⟨hactive, howns⟩ := Engine.owner?_eq_some_iff.1 howner
    cases hallows with
    | request hevent' => cases hevent.symm.trans hevent'
    | cancel hevent' => cases hevent.symm.trans hevent'
    | @report i p status htaken hstatus hevent' =>
      obtain ⟨rfl, rfl, hverdict⟩ := Event.completed_eq_transferApplied (hevent'.symm.trans hevent)
      obtain ⟨p', hp', body, hbody⟩ := hx.answers (i, code) (hstatus code rfl) hverdict
      cases htaken.symm.trans hp'
      -- Message, applied body and active session have one token.
      obtain ⟨r₁, -, k, -, hparcel⟩ := hx.exists_parcel htaken
      have htoken : p.token = p.completion.token := by rw [← hparcel]; rfl
      obtain ⟨r₂, hr₂, heq, -⟩ := hx.applied _ hbody
      obtain ⟨r, rest, hrecords, hdrives⟩ := hx.history.drives hactive
      have hr : r ∈ x.history.records := by rw [hrecords]; exact List.mem_cons_self
      have hsession := hdrives.runs.session_eq
      have hsame : r₂ = r := by
        refine record_eq htokens hr₂ hr ?_
        calc r₂.admission.token = p.token := (congrArg Prod.fst heq).symm
          _ = p.completion.token := htoken
          _ = s.token := howns.1
          _ = r.admission.token := by rw [hsession]; rfl
      refine ⟨s, hactive, rfl, ?_⟩
      have hpair : (s.token, s.body) = (r.admission.token, r.admission.upload.body) := by
        rw [hsession]
        rfl
      rw [hpair, ← hsame, ← heq]
      exact hbody

end Sound

end Network

/-- **End-to-end integrity.**  Wherever an engine and a receiver come over an
unreliable network, if the tokens of the sessions are distinct,

* every body that the receiver has applied is, octet for octet, the body of an upload
  that was admitted;
* when the engine reports the success of a session, the receiver has applied the body
  of that session, under its token.

The network may lose what was sent, and deliver it late, in any order, or again; the
engine may be told of a message more than once. -/
theorem end_to_end_integrity [Inspector ι] (t : Transport σ μ β ε) (stream : WordStream)
    (config : Config) (inspector : ι) (link : σ) {x : Network ι σ}
    (hreach : Relation.ReflTransGen (Network.Step t)
      (Network.ofEngine (Engine.ofStream stream config inspector) link) x)
    (htokens : x.tokens.Nodup) :
    (∀ q ∈ x.receiver.applied, ∃ r ∈ x.history.records,
      q = (r.admission.token, r.admission.upload.body) ∧ r.admission.upload ∈ x.admitted) ∧
    ∀ op report, x.Allows op →
      (Engine.perform t op x.history.engine x.history.link.link).result =
        .outcome (some (.ok report)) →
      ∃ s ∈ x.history.engine.session?, report.token = s.token ∧
        (s.token, s.body) ∈ x.receiver.applied := by
  have hstart : (Network.ofEngine (Engine.ofStream stream config inspector) link).Sound :=
    .ofEngine rfl link
  have hx : x.Sound := (hstart.reaches hreach).2 htokens
  refine ⟨fun q hq => ?_, fun op report hallows hresult => ?_⟩
  · obtain ⟨r, hr, hpair, hsent⟩ := hx.applied q hq
    exact ⟨r, hr, hpair, hx.admitted r hr hsent⟩
  · exact hx.applied_of_report htokens hallows hresult

/-- The blocks of the sample reach the receiver in order, and the answer to the last one
is reported before that to the second. -/
theorem end_to_end_integrity_sample :
    let fresh := Engine.new default ()
    let a := fresh.admission .sample
    let op := Operation.complete (a.completion 2) (some .changed)
    ∃ x : Network Unit Unit,
      Relation.ReflTransGen (Network.Step .sink) (Network.ofEngine fresh ()) x ∧
      x.tokens.Nodup ∧ x.Allows op ∧
      ∃ report, (Engine.perform .sink op x.history.engine x.history.link.link).result =
          .outcome (some (.ok report)) ∧
        ∃ s ∈ x.history.engine.session?, report.token = s.token ∧
          (s.token, s.body) ∈ x.receiver.applied := by
  intro fresh a op
  have hreport : ∀ {x : Network Unit Unit} {i : ℕ} {c : Completion} {code : Code},
      (x.history.link.taken.map (·.completion))[i]? = some c → (i, code) ∈ x.answers →
        x.Allows (.complete c (some code)) := by
    intro x i c code hcompletion hanswer
    rw [List.getElem?_map] at hcompletion
    obtain ⟨p, hp, rfl⟩ := Option.map_eq_some_iff.1 hcompletion
    have hstatus : ∀ code' ∈ some code, (i, code') ∈ x.answers := by
      rintro _ ⟨⟩
      exact hanswer
    exact .report hp hstatus rfl
  let x₁ := (Network.ofEngine fresh ()).operate .sink (.start .sample)
  let x₂ := x₁.deliver 0
  let x₃ := x₂.operate .sink (.complete (a.completion 0) (some .continued))
  let x := (x₃.deliver 1).deliver 2
  have hfirst : x₂.Allows (.complete (a.completion 0) (some .continued)) :=
    hreport (i := 0) (by decide +kernel) (by decide +kernel)
  have hlast : x.Allows op := hreport (i := 2) (by decide +kernel) (by decide +kernel)
  have hreach : Relation.ReflTransGen (Network.Step .sink) (Network.ofEngine fresh ()) x :=
    ((((Relation.ReflTransGen.single (.operate (.request rfl))).tail (.deliver 0)).tail
      (.operate hfirst)).tail (.deliver 1)).tail (.deliver 2)
  have htokens : x.tokens.Nodup := by decide +kernel
  have howned : (x.history.engine.owner? (a.completion 2)).isSome := by decide +kernel
  obtain ⟨s, howner⟩ := Option.isSome_iff_exists.1 howned
  have hresult : (Engine.perform .sink op x.history.engine x.history.link.link).result =
      .outcome (some (.ok ⟨s.token, s.window.total, s.body.size, .changed⟩)) := by
    show Answer.outcome (Engine.handle .sink (.transferApplied (a.completion 2) .changed)
      x.history.engine x.history.link.link).result = _
    rw [Engine.handle, Engine.forOwner, howner]
    rfl
  obtain ⟨-, hsuccess⟩ := end_to_end_integrity .sink (.ofSeed 0) default () () hreach htokens
  exact ⟨x, hreach, htokens, hlast, _, hresult, hsuccess op _ hlast hresult⟩

end Blockwise
