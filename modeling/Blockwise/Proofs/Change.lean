import Blockwise.Proofs.Outcomes
/-!
# What an event changes

`Engine.Course` says what an event can come to for an engine and its link.  Seen
from the records of a history there is less to tell apart: a request is refused,
an upload is admitted or aborted, a session goes on, is completed or fails, or
nothing happens at all.  `History.Change` lists these, each with its outcome and
with what becomes of the records, and there are no others
(`History.Sound.change`).

**Records only grow.**  Every change keeps the admissions that were there, adds
at most one (`Change.admissions_suffix`), and takes nothing back that was sent
(`Change.exists_record`).  So what is true of what was admitted and sent stays
true.
-/

namespace Blockwise

variable {ι σ μ β ε : Type}

/-- A loop that fails could have sent another block. -/
theorem Filling.canSend_of_error [Inspector ι] {t : Transport σ μ β ε} {x : Filling ι σ}
    {failure : DispatchError ε} (h : (x.fill t).result = .error failure) :
    (x.fill t).session.window.CanSend := by
  obtain ⟨y, -, hstops⟩ := exists_stops t x
  rw [hstops.session_eq]
  generalize x.fill t = f at hstops h
  cases hstops with
  | full hsend => cases h
  | exhausted hsend hblock => cases h
  | failed hsend hblock hdeliver => exact hsend

/-- Only to a request is it an answer that an upload was admitted. -/
theorem Operation.exists_upload_of_admits {op : Operation} {outcome : Option (Outcome ε)}
    (h : (op.answer outcome).admits op = true) :
    ∃ upload, op.event = .admissionRequested upload ∧
      ∀ failure, outcome ≠ some (.error failure) := by
  have herror : ∀ failure, outcome ≠ some (.error failure) := by
    rintro failure rfl
    rw [admits_answer_error] at h
    cases h
  cases hevent : op.event with
  | admissionRequested upload => exact ⟨upload, rfl, herror⟩
  | _ =>
    rw [answer_of_not_request (by rw [hevent]; rfl)] at h
    cases outcome with
    | none =>
      rw [Answer.admits, hevent] at h
      cases h
    | some result => cases h

theorem Record.admission_acknowledge (r : Record) (c : Completion) (news : List Parcel) :
    (r.acknowledge c news).admission = r.admission := by
  unfold acknowledge
  split <;> rfl

namespace History

/-- What the sessions were made of, the latest first. -/
def admissions (h : History ι σ) : List Admission := h.records.map Record.admission

/-- An event that asks for nothing, or is refused, admits nothing. -/
theorem admissions_noted {h : History ι σ} {event : Event} {refused : Bool} {news : List Parcel}
    {e : Engine ι} {l : Ledgered σ} (hkept : event.isRequest = false ∨ refused = true) :
    admissions ⟨e, l, h.noted event refused news⟩ = h.admissions := by
  have hhead : ∀ c, (h.records.modifyHead (·.acknowledge c news)).map Record.admission =
      h.admissions := by
    intro c
    unfold admissions
    cases h.records with
    | nil => rfl
    | cons r rest =>
      rw [List.modifyHead_cons, List.map_cons, List.map_cons, Record.admission_acknowledge]
  cases event with
  | admissionRequested upload =>
    obtain hrequest | rfl := hkept
    · cases hrequest
    · rfl
  | blockAckReceived c =>
    show (if h.engine.isActive then _ else _ : List Record).map Record.admission = _
    split
    · exact hhead c
    · rfl
  | transferApplied c code => rfl
  | blockRejected c code => rfl
  | blockTimedOut c => rfl
  | cancelled => rfl

/-- What an event changes: its outcome, and the history after it. -/
inductive Change (h : History ι σ) : Event → Option (Outcome ε) → History ι σ → Prop
  /-- A request is refused.  It may have used up a token. -/
  | refused {upload : Upload} {failure : UploadError ε} {h' : History ι σ}
      (hadmission : failure.isAdmission = true)
      (hsession : h'.engine.session? = h.engine.session?)
      (hgeneration : h'.engine.generation = h.engine.generation)
      (htaken : h'.link.taken = h.link.taken) (hrecords : h'.records = h.records) :
      Change h (.admissionRequested upload) (some (.error failure)) h'
  /-- The event is of no concern to any session. -/
  | kept {event : Event} (hrequest : event.isRequest = false)
      (howner : ∀ c, event.completion? = some c → h.engine.owner? c = none) :
      Change h event none h
  /-- An upload is admitted. -/
  | admitted {upload : Upload} {s : Session} {news : List Parcel} {h' : History ι σ}
      (hfree : h.engine.session? = none) (hsession : h'.engine.session? = some s)
      (hgeneration : h'.engine.generation = h.engine.generation + 1)
      (hrecords : h'.records = ⟨h.engine.admission upload, news, ∅⟩ :: h.records) :
      Change h (.admissionRequested upload) none h'
  /-- An upload is admitted, and some block of its first window is not taken. -/
  | aborted {upload : Upload} {failure : DispatchError ε} {news : List Parcel} {h' : History ι σ}
      (hfree : h.engine.session? = none) (hsession : h'.engine.session? = none)
      (hgeneration : h'.engine.generation = h.engine.generation + 1)
      (hrecords : h'.records = ⟨h.engine.admission upload, news, ∅⟩ :: h.records)
      (hnews : news.length < (h.engine.admission upload).total) :
      Change h (.admissionRequested upload) (some (.error (.dispatch failure))) h'
  /-- A block is acknowledged, and the session goes on. -/
  | advanced {c : Completion} {s s' : Session} {r : Record} {rest : List Record}
      {news : List Parcel} {h' : History ι σ} (howner : h.engine.owner? c = some s)
      (hsession : h'.engine.session? = some s')
      (hgeneration : h'.engine.generation = h.engine.generation)
      (hrecords : h.records = r :: rest)
      (hrecords' : h'.records =
        { r with sent := r.sent ++ news, acked := insert c.num.toNat r.acked } :: rest) :
      Change h (.blockAckReceived c) none h'
  /-- The server applied the body. -/
  | completed {c : Completion} {code : Code} {s : Session} {h' : History ι σ}
      (howner : h.engine.owner? c = some s) (hsession : h'.engine.session? = none)
      (hgeneration : h'.engine.generation = h.engine.generation)
      (htaken : h'.link.taken = h.link.taken) (hrecords : h'.records = h.records) :
      Change h (.transferApplied c code)
        (some (.ok { token := s.token, blocks := s.window.total, bytes := s.body.size, code })) h'
  /-- The session ends without success. -/
  | failed {event : Event} {s : Session} {cause : Cause ε} {r : Record} {rest : List Record}
      {news : List Parcel} {acked : Finset ℕ} {h' : History ι σ}
      (hrequest : event.isRequest = false) (hactive : h.engine.session? = some s)
      (howner : ∀ c, event.completion? = some c → h.engine.owner? c = some s)
      (hsession : h'.engine.session? = none)
      (hgeneration : h'.engine.generation = h.engine.generation)
      (hrecords : h.records = r :: rest)
      (hrecords' : h'.records = { r with sent := r.sent ++ news, acked } :: rest) :
      Change h event (some (.error (.failed cause))) h'

/-! ## There are no other changes -/

namespace Sound

open Engine

variable {h : History ι σ} {c : Completion} {s : Session} {event : Event}

/-- A session that ends where no record is written fails. -/
theorem change_failed (hs : h.Sound) {e : Engine ι} {cause : Cause ε}
    (hrequest : event.isRequest = false) (hactive : h.engine.session? = some s)
    (howner : ∀ c, event.completion? = some c → h.engine.owner? c = some s)
    (hsession : e.session? = none) (hgeneration : e.generation = h.engine.generation)
    (l : Ledgered σ) :
    Change h event (some (.error (.failed cause))) ⟨e, l, h.records⟩ := by
  obtain ⟨r, rest, hrecords, -⟩ := hs.drives hactive
  have hrecords' : h.records = { r with sent := r.sent ++ [], acked := r.acked } :: rest := by
    rw [List.append_nil]
    exact hrecords
  exact .failed hrequest hactive howner hsession hgeneration hrecords hrecords'

variable [Inspector ι] {t : Transport σ μ β ε}

/-- A block of the first window that is not taken leaves blocks unsent. -/
theorem change_aborted {upload : Upload} {x : Filling ι (Ledgered σ)}
    {f : Filled ι (Ledgered σ) ε} {failure : DispatchError ε} {e : Engine ι}
    (henters : Enters t.ledgered h.engine h.link (.admissionRequested upload) x)
    (hfill : x.fill t.ledgered = f) (hresult : f.result = .error failure)
    (hsession : e.session? = none) (hgeneration : e.generation = h.engine.generation + 1) :
    Change h (.admissionRequested upload) (some (.error (.dispatch failure)))
      ⟨e, f.link, ⟨h.engine.admission upload, f.link.taken.drop h.link.taken.length, ∅⟩
        :: h.records⟩ := by
  obtain ⟨hsends, htaken⟩ := henters.sends_of_admission
  obtain ⟨hruns, -, -⟩ := hsends.fill (t := t)
  have hnone : x.link.taken = h.link.taken ++ [] := by rw [htaken, List.append_nil]
  have hnews := hsends.sent_append (t := t) hnone
  have hsend := Filling.canSend_of_error (hfill ▸ hresult)
  rw [hfill] at hruns hnews hsend
  rw [List.nil_append, htaken] at hnews
  have hfree : h.engine.session? = none := by
    cases henters with
    | admission hfree hready hsession => exact hfree
  refine .aborted hfree hsession hgeneration rfl ?_
  rw [hnews, Admission.length_parcels, ← hruns.toNat_total]
  exact (hruns.tracks.canSend_iff.1 hsend).1

/-- Every event makes one of the changes. -/
theorem change (hs : h.Sound) (event : Event) :
    Change h event (handle t.ledgered event h.engine h.link).result (h.handled t event) := by
  have hcourse := handle_course t.ledgered event h.engine h.link
  unfold History.handled
  generalize handle t.ledgered event h.engine h.link = r at hcourse ⊢
  cases hcourse with
  | busy hactive => exact .refused rfl rfl rfl rfl rfl
  | disconnected hfree hready => exact .refused rfl rfl rfl rfl rfl
  | invalid hfree hready hsession => exact .refused rfl rfl rfl rfl rfl
  | admitted henters hfill hresult =>
    cases henters with
    | admission hfree hready hsession => exact .admitted hfree rfl rfl rfl
  | aborted henters hfill hresult => exact change_aborted henters hfill hresult rfl rfl
  | idle hfree =>
    refine .kept rfl ?_
    rintro c ⟨⟩
  | cancelled hactive =>
    refine hs.change_failed (e := { h.engine with slot := .failed }) rfl hactive ?_ rfl rfl _
    rintro c ⟨⟩
  | ignored hcompletion howner =>
    dsimp only
    rw [hs.noted_of_owner?_none hcompletion howner]
    refine .kept (Event.not_isRequest_of_completion? hcompletion) ?_
    intro c' hcompletion'
    cases hcompletion.symm.trans hcompletion'
    exact howner
  | overrun howner hlast =>
    obtain ⟨r, rest, hrecords, -, -, hnoted⟩ := hs.exists_latest howner
    refine .failed rfl (owner?_eq_some_iff.1 howner).1 ?_ rfl rfl hrecords (hnoted false _)
    rintro c ⟨⟩
    exact howner
  | advanced henters hfill hresult =>
    obtain ⟨s, howner, -⟩ := henters.runs_of_ack
    obtain ⟨r, rest, hrecords, -, -, hnoted⟩ := hs.exists_latest howner
    exact .advanced howner rfl rfl hrecords (hnoted false _)
  | broken henters hfill hresult =>
    obtain ⟨s, howner, -⟩ := henters.runs_of_ack
    obtain ⟨r, rest, hrecords, -, -, hnoted⟩ := hs.exists_latest howner
    refine .failed rfl (owner?_eq_some_iff.1 howner).1 ?_ rfl rfl hrecords (hnoted false _)
    rintro c ⟨⟩
    exact howner
  | applied howner => exact .completed howner rfl rfl rfl rfl
  | rejected howner =>
    refine hs.change_failed (e := { h.engine with slot := .failed }) rfl
      (owner?_eq_some_iff.1 howner).1 ?_ rfl rfl _
    rintro c ⟨⟩
    exact howner
  | timedOut howner =>
    refine hs.change_failed (e := { h.engine with slot := .failed }) rfl
      (owner?_eq_some_iff.1 howner).1 ?_ rfl rfl _
    rintro c ⟨⟩
    exact howner

/-- Every operation makes one of the changes, and answers as it does. -/
theorem step_change (hs : h.Sound) (op : Operation) :
    ∃ outcome, (perform t.ledgered op h.engine h.link).result = op.answer outcome ∧
      Change h op.event outcome (h.step t op) := by
  rw [perform_eq, step_eq]
  exact ⟨_, rfl, hs.change op.event⟩

end Sound

/-! ## Without the ledger -/

section

variable [Inspector ι]

/-- The engine and the link move as they do without a ledger. -/
theorem step_engine (t : Transport σ μ β ε) (h : History ι σ) (op : Operation) :
    (h.step t op).engine = (Engine.perform t op h.engine h.link.link).engine ∧
      (h.step t op).link.link = (Engine.perform t op h.engine h.link.link).link := by
  rw [← Engine.perform_ledgered]
  exact ⟨rfl, rfl⟩

/-- The engine answers as it does without a ledger. -/
theorem result_perform (t : Transport σ μ β ε) (h : History ι σ) (op : Operation) :
    (Engine.perform t.ledgered op h.engine h.link).result =
      (Engine.perform t op h.engine h.link.link).result := by
  rw [← Engine.perform_ledgered]
  rfl

/-- What an operation answers is what its event comes to. -/
theorem result_eq (t : Transport σ μ β ε) (h : History ι σ) (op : Operation) :
    (Engine.perform t op h.engine h.link.link).result =
      op.answer (Engine.handle t.ledgered op.event h.engine h.link).result := by
  rw [← result_perform, Engine.perform_eq]
  rfl

/-- An upload that is admitted is active, and has a record. -/
theorem Sound.admitted_of_admits {t : Transport σ μ β ε} {h : History ι σ} (hs : h.Sound)
    {op : Operation}
    (hadmits : (Engine.perform t op h.engine h.link.link).result.admits op = true) :
    ∃ s r, (h.step t op).engine.session? = some s ∧ (h.step t op).records = r :: h.records := by
  rw [result_eq] at hadmits
  obtain ⟨upload, hevent, herror⟩ := Operation.exists_upload_of_admits hadmits
  rw [step_eq]
  have hchange := hs.change (t := t) op.event
  generalize Engine.handle t.ledgered op.event h.engine h.link = reaction at hchange herror
  generalize h.handled t op.event = h' at hchange ⊢
  rw [hevent] at hchange
  generalize reaction.result = outcome at hchange herror
  cases hchange with
  | refused => exact absurd rfl (herror _)
  | kept hrequest => cases hrequest
  | admitted _ hsession _ hrecords => exact ⟨_, _, hsession, hrecords⟩
  | aborted => exact absurd rfl (herror _)
  | failed hrequest => cases hrequest

end

/-! ## Records only grow -/

namespace Change

variable {h h' : History ι σ} {event : Event} {outcome : Option (Outcome ε)}

/-- An admission takes the next generation, and nothing else does. -/
theorem admissions_eq (hc : Change h event outcome h') :
    (h'.admissions = h.admissions ∧ h'.engine.generation = h.engine.generation) ∨
      ∃ upload, h'.admissions = h.engine.admission upload :: h.admissions ∧
        h'.engine.generation = h.engine.generation + 1 := by
  unfold admissions
  cases hc with
  | refused _ _ hgeneration _ hrecords => exact .inl ⟨by rw [hrecords], hgeneration⟩
  | kept => exact .inl ⟨rfl, rfl⟩
  | admitted _ _ hgeneration hrecords =>
    exact .inr ⟨_, by rw [hrecords, List.map_cons], hgeneration⟩
  | aborted _ _ hgeneration hrecords =>
    exact .inr ⟨_, by rw [hrecords, List.map_cons], hgeneration⟩
  | advanced _ _ hgeneration hrecords hrecords' =>
    exact .inl ⟨by rw [hrecords, hrecords', List.map_cons, List.map_cons], hgeneration⟩
  | completed _ _ hgeneration _ hrecords => exact .inl ⟨by rw [hrecords], hgeneration⟩
  | failed _ _ _ _ hgeneration hrecords hrecords' =>
    exact .inl ⟨by rw [hrecords, hrecords', List.map_cons, List.map_cons], hgeneration⟩

/-- What was admitted stays admitted. -/
theorem admissions_suffix (hc : Change h event outcome h') : h.admissions <:+ h'.admissions := by
  rcases hc.admissions_eq with ⟨hsame, -⟩ | ⟨upload, hnew, -⟩
  · rw [hsame]
  · rw [hnew]
    exact List.suffix_cons _ _

/-- What was sent stays sent. -/
theorem exists_record (hc : Change h event outcome h') {r : Record} (hr : r ∈ h.records) :
    ∃ r' ∈ h'.records, r'.admission = r.admission ∧ r.sent <+: r'.sent := by
  have hhead : ∀ {r₀ : Record} {rest : List Record} {news : List Parcel} {acked : Finset ℕ},
      h.records = r₀ :: rest → h'.records = { r₀ with sent := r₀.sent ++ news, acked } :: rest →
      ∃ r' ∈ h'.records, r'.admission = r.admission ∧ r.sent <+: r'.sent := by
    intro r₀ rest news acked hrecords hrecords'
    rw [hrecords] at hr
    rw [hrecords']
    rcases List.mem_cons.1 hr with rfl | hr
    · exact ⟨_, List.mem_cons_self, rfl, List.prefix_append _ _⟩
    · exact ⟨r, List.mem_cons_of_mem _ hr, rfl, List.prefix_rfl⟩
  cases hc with
  | refused _ _ _ _ hrecords => exact ⟨r, hrecords ▸ hr, rfl, List.prefix_rfl⟩
  | kept => exact ⟨r, hr, rfl, List.prefix_rfl⟩
  | admitted _ _ _ hrecords =>
    exact ⟨r, hrecords ▸ List.mem_cons_of_mem _ hr, rfl, List.prefix_rfl⟩
  | aborted _ _ _ hrecords =>
    exact ⟨r, hrecords ▸ List.mem_cons_of_mem _ hr, rfl, List.prefix_rfl⟩
  | advanced _ _ _ hrecords hrecords' => exact hhead hrecords hrecords'
  | completed _ _ _ _ hrecords => exact ⟨r, hrecords ▸ hr, rfl, List.prefix_rfl⟩
  | failed _ _ _ _ _ hrecords hrecords' => exact hhead hrecords hrecords'

/-- The ledger only grows. -/
theorem taken_prefix (hc : Change h event outcome h') (hs : h.Sound) (hs' : h'.Sound) :
    h.link.taken <+: h'.link.taken := by
  have hcons : ∀ {r : Record}, h'.records = r :: h.records → h.link.taken <+: h'.link.taken := by
    intro r hrecords
    rw [hs'.taken_eq, hrecords, Record.flatMap_sent_cons, ← hs.taken_eq]
    exact List.prefix_append _ _
  have hhead : ∀ {r : Record} {rest : List Record} {news : List Parcel} {acked : Finset ℕ},
      h.records = r :: rest → h'.records = { r with sent := r.sent ++ news, acked } :: rest →
      h.link.taken <+: h'.link.taken := by
    intro r rest news acked hrecords hrecords'
    rw [hs'.taken_eq, hs.taken_eq, hrecords, hrecords', Record.flatMap_sent_cons,
      Record.flatMap_sent_cons, ← List.append_assoc]
    exact List.prefix_append _ _
  cases hc with
  | refused _ _ _ htaken => rw [htaken]
  | kept => exact List.prefix_rfl
  | admitted _ _ _ hrecords => exact hcons hrecords
  | aborted _ _ _ hrecords => exact hcons hrecords
  | advanced _ _ _ hrecords hrecords' => exact hhead hrecords hrecords'
  | completed _ _ _ htaken => rw [htaken]
  | failed _ _ _ _ _ hrecords hrecords' => exact hhead hrecords hrecords'

end Change

/-! ## Runs -/

section Run

variable [Inspector ι] {t : Transport σ μ β ε} {h : History ι σ}

theorem run_append (ops ops' : List Operation) :
    h.run t (ops ++ ops') = (h.run t ops).run t ops' := List.foldl_append

theorem run_concat (ops : List Operation) (op : Operation) :
    h.run t (ops ++ [op]) = (h.run t ops).step t op := List.foldl_concat _ _ _ _

/-- What was admitted stays admitted throughout a run. -/
theorem Sound.admissions_suffix_run (hs : h.Sound) (ops : List Operation) :
    h.admissions <:+ (h.run t ops).admissions := by
  induction ops generalizing h with
  | nil => exact List.suffix_rfl
  | cons op ops ih =>
    obtain ⟨outcome, -, hchange⟩ := hs.step_change (t := t) op
    exact hchange.admissions_suffix.trans (ih (hs.step op))

/-- The ledger only grows throughout a run. -/
theorem Sound.taken_prefix_run (hs : h.Sound) (ops : List Operation) :
    h.link.taken <+: (h.run t ops).link.taken := by
  induction ops generalizing h with
  | nil => exact List.prefix_rfl
  | cons op ops ih =>
    obtain ⟨outcome, -, hchange⟩ := hs.step_change (t := t) op
    exact (hchange.taken_prefix hs (hs.step op)).trans (ih (hs.step op))

end Run

/-! ## Generations count the sessions -/

/-- The generations of the sessions are the ones after `g`, in the order of
admission. -/
structure NumberedFrom (g : UInt32) (h : History ι σ) : Prop where
  engine_eq : h.engine.generation = g + UInt32.ofNat h.admissions.length
  getElem?_eq : ∀ k a, h.admissions.reverse[k]? = some a → a.generation = g + UInt32.ofNat (k + 1)

namespace NumberedFrom

variable {g : UInt32} {h h' : History ι σ} {event : Event} {outcome : Option (Outcome ε)}

theorem ofEngine (e : Engine ι) (link : σ) :
    (History.ofEngine e link).NumberedFrom e.generation where
  engine_eq := (UInt32.add_zero e.generation).symm
  getElem?_eq := by
    rintro k a ⟨⟩

theorem change (hn : h.NumberedFrom g) (hc : Change h event outcome h') : h'.NumberedFrom g := by
  rcases hc.admissions_eq with ⟨hsame, hgeneration⟩ | ⟨upload, hnew, hgeneration⟩
  · refine ⟨?_, ?_⟩
    · rw [hgeneration, hsame]
      exact hn.engine_eq
    · rw [hsame]
      exact hn.getElem?_eq
  · have hnext : h.engine.generation + 1 = g + UInt32.ofNat (h.admissions.length + 1) := by
      rw [hn.engine_eq, UInt32.ofNat_add, UInt32.add_assoc]
      rfl
    refine ⟨?_, ?_⟩
    · rw [hgeneration, hnew, hnext]
      rfl
    · intro k a hk
      rw [hnew, List.reverse_cons] at hk
      rcases Nat.lt_or_ge k h.admissions.reverse.length with hlt | hge
      · rw [List.getElem?_append_left hlt] at hk
        exact hn.getElem?_eq k a hk
      · -- The only place past the earlier sessions is that of the new one.
        rw [List.getElem?_append_right hge, List.getElem?_singleton] at hk
        obtain ⟨hzero, ha⟩ := Option.ite_none_right_eq_some.1 hk
        obtain rfl := Option.some.inj ha
        rw [List.length_reverse] at hge hzero
        rw [show k = h.admissions.length by omega]
        exact hnext

theorem run [Inspector ι] {t : Transport σ μ β ε} (hn : h.NumberedFrom g) (hs : h.Sound)
    (ops : List Operation) : (h.run t ops).NumberedFrom g := by
  induction ops generalizing h with
  | nil => exact hn
  | cons op ops ih =>
    obtain ⟨outcome, -, hchange⟩ := hs.step_change (t := t) op
    exact ih (hn.change hchange) (hs.step op)

/-- Generations do not repeat before there are more sessions than words. -/
theorem nodup (hn : h.NumberedFrom g) (hlength : h.admissions.length ≤ UInt32.size) :
    (h.admissions.map Admission.generation).Nodup := by
  rw [← List.nodup_reverse, ← List.map_reverse, List.nodup_iff_injective_getElem]
  rintro ⟨i, hi⟩ ⟨j, hj⟩ hij
  rw [List.length_map, List.length_reverse] at hi hj
  simp only [List.getElem_map] at hij
  rw [hn.getElem?_eq i _ (List.getElem?_eq_getElem _),
    hn.getElem?_eq j _ (List.getElem?_eq_getElem _)] at hij
  have hword := congrArg UInt32.toNat ((UInt32.add_right_inj g).1 hij)
  rw [UInt32.toNat_ofNat', UInt32.toNat_ofNat'] at hword
  have hsize : UInt32.size = 2 ^ 32 := rfl
  rw [Fin.mk.injEq]
  omega

end NumberedFrom

/-- The generation of a session is its position among those admitted, counted from
1 in 32 bits. -/
structure Numbered (h : History ι σ) : Prop where
  engine_eq : h.engine.generation = UInt32.ofNat h.admissions.length
  getElem?_eq : ∀ k a, h.admissions.reverse[k]? = some a → a.generation = UInt32.ofNat (k + 1)

namespace Numbered

variable {h : History ι σ}

theorem iff_numberedFrom : h.Numbered ↔ h.NumberedFrom 0 := by
  constructor
  · rintro ⟨hengine, hget⟩
    refine ⟨by rw [UInt32.zero_add]; exact hengine, fun k a hk => ?_⟩
    rw [UInt32.zero_add]
    exact hget k a hk
  · rintro ⟨hengine, hget⟩
    simp only [UInt32.zero_add] at hengine hget
    exact ⟨hengine, hget⟩

theorem ofEngine {e : Engine ι} (hgeneration : e.generation = 0) (link : σ) :
    (History.ofEngine e link).Numbered := by
  rw [iff_numberedFrom, ← hgeneration]
  exact .ofEngine e link

theorem run [Inspector ι] {t : Transport σ μ β ε} (hn : h.Numbered) (hs : h.Sound)
    (ops : List Operation) : (h.run t ops).Numbered :=
  iff_numberedFrom.2 ((iff_numberedFrom.1 hn).run hs ops)

end Numbered

end History

end Blockwise
