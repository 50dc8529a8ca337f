import Blockwise.Proofs.Admission
/-!
# The history of an engine

What an engine holds between two operations says how far its session has come,
but not by which messages and acknowledgements.  A `History` keeps both beside
the engine.  It has one `Record` for every session that was admitted, which is
written from what can be seen from outside: the operations, their answers, and
the ledger of the messages that were taken.

**Nothing is assumed of a record.**  Keeping a history changes nothing that the
engine does (`History.run_engine`), and what the records come to say is proved:
`History.Sound` holds at the start, is kept by every operation
(`History.Sound.step`), and so holds throughout (`History.Sound.run`).
-/

namespace Blockwise

variable {ι σ μ β ε : Type}

/-! ## Records -/

/-- What is known of a session from outside. -/
structure Record where
  admission : Admission
  /-- The messages that were taken for it, in order. -/
  sent : List Parcel
  /-- The blocks that were acknowledged with 2.31. -/
  acked : Finset ℕ := ∅

namespace Record

/-- The completion is about a message of the session that was taken and is not
acknowledged. -/
def Awaits (r : Record) (c : Completion) : Prop :=
  c.token = r.admission.token ∧ c.generation = r.admission.generation ∧
    c.num.toNat < r.sent.length ∧ c.num.toNat ∉ r.acked

instance (r : Record) (c : Completion) : Decidable (r.Awaits c) := by
  unfold Awaits
  infer_instance

/-- The record after an acknowledgement, in answer to which `news` were sent. -/
def acknowledge (r : Record) (c : Completion) (news : List Parcel) : Record :=
  if r.Awaits c then
    { r with sent := r.sent ++ news, acked := insert c.num.toNat r.acked }
  else r

/-- The messages of the session are the first of those that its admission
settles, which is valid. -/
structure Sound (r : Record) : Prop where
  valid : r.admission.Valid
  sent_eq : ∃ k ≤ r.admission.total, r.sent = r.admission.parcels k

/-- The record is of the session `s`, which is under way and waits. -/
structure Drives (r : Record) (s : Session) : Prop where
  runs : r.admission.Runs r.acked s
  sent_eq : r.sent = r.admission.parcels s.window.next.toNat
  rests : ¬ s.window.CanSend

variable {r : Record} {s : Session} {c : Completion}

/-- The session acts on the completions that its record awaits, and on no
others. -/
theorem Drives.owns_iff (h : r.Drives s) : s.Owns c ↔ r.Awaits c := by
  unfold Session.Owns Awaits
  rw [h.runs.tracks.mem_inFlight_iff, h.sent_eq, Admission.length_parcels, h.runs.session_eq]
  rfl

/-- The messages that were taken for an admission, where some session of it has
sent as many. -/
theorem sound_of_runs {a : Admission} {acked : Finset ℕ} (h : a.Runs acked s) :
    Sound ⟨a, a.parcels s.window.next.toNat, acked⟩ where
  valid := h.valid
  sent_eq := ⟨s.window.next.toNat, h.next_le, rfl⟩

namespace Sound

theorem length_le (hr : r.Sound) : r.sent.length ≤ r.admission.total := by
  obtain ⟨-, k, hk, hsent⟩ := hr
  rw [hsent, Admission.length_parcels]
  exact hk

/-- The message at place `i` of those that were sent is that of block `i`. -/
theorem getElem?_sent_iff (hr : r.Sound) {i : ℕ} {p : Parcel} :
    r.sent[i]? = some p ↔ i < r.sent.length ∧ r.admission.parcel i = p := by
  obtain ⟨-, k, -, hsent⟩ := hr
  have hget : ∀ hlt : i < r.sent.length, r.sent[i] = r.admission.parcel i := by
    intro hlt
    simp only [hsent, Admission.parcels, List.getElem_map, List.getElem_range]
  rw [List.getElem?_eq_some_iff]
  constructor
  · rintro ⟨hlt, rfl⟩
    exact ⟨hlt, (hget hlt).symm⟩
  · rintro ⟨hlt, rfl⟩
    exact ⟨hlt, hget hlt⟩

/-- The messages that were sent are those of the first blocks. -/
theorem mem_sent_iff (hr : r.Sound) {p : Parcel} :
    p ∈ r.sent ↔ ∃ i < r.sent.length, r.admission.parcel i = p := by
  simp only [List.mem_iff_getElem?, hr.getElem?_sent_iff]

/-- The number that goes with a message that was sent is that of its block. -/
theorem toNat_num (hr : r.Sound) {i : ℕ} (hi : i < r.sent.length) :
    (r.admission.parcel i).completion.num.toNat = i :=
  hr.valid.toNat_num (hi.trans_le hr.length_le)

end Sound

end Record

/-- What a session of the upload would be made of. -/
def Engine.admission (e : Engine ι) (upload : Upload) : Admission where
  config := e.config
  upload
  token := e.source.next.1
  generation := e.generation + 1

theorem Engine.sessionOf_eq_ok_iff {e : Engine ι} {upload : Upload} {s : Session} :
    e.sessionOf upload = .ok s ↔
      (e.admission upload).Valid ∧ s = (e.admission upload).session (e.admission upload).window :=
  Admission.ofUpload_eq_ok_iff (a := e.admission upload)

/-- There are two records, where there is something to say of two. -/
theorem Record.exists_pair_of_map {α : Type} {f : Record → α} {records : List Record} {x y : α}
    (h : records.map f = [x, y]) : ∃ A B, records = [B, A] ∧ f B = x ∧ f A = y := by
  obtain ⟨B, _, rfl, hB, hrest⟩ := List.map_eq_cons_iff.1 h
  obtain ⟨A, _, rfl, hA, hnil⟩ := List.map_eq_cons_iff.1 hrest
  obtain rfl := List.map_eq_nil_iff.1 hnil
  exact ⟨A, B, rfl, hB, hA⟩

/-- What was sent for the latest record comes after what was sent for the earlier
ones. -/
theorem Record.flatMap_sent_cons (r : Record) (rest : List Record) :
    (r :: rest).reverse.flatMap sent = rest.reverse.flatMap sent ++ r.sent := by
  rw [List.reverse_cons, List.flatMap_append, List.flatMap_singleton]

/-! ## Histories -/

/-- The answer says that the upload that was asked for was not admitted. -/
def Answer.isRefusal : Answer ε → Bool
  | .admission (.error failure) | .outcome (some (.error failure)) => failure.isAdmission
  | .admission (.ok _) | .outcome (some (.ok _)) | .outcome none => false

theorem Operation.isRefusal_answer (op : Operation) (outcome : Option (Outcome ε)) :
    (op.answer outcome).isRefusal = (Answer.outcome outcome).isRefusal := by
  obtain _ | _ | _ := outcome <;> cases op <;> rfl

/-- An engine with a ledgered link, and with a record for every session that was
admitted, the latest first. -/
structure History (ι σ : Type) where
  engine : Engine ι
  link : Ledgered σ
  records : List Record := []

namespace History

/-- The history that begins with this engine and this link. -/
def ofEngine (e : Engine ι) (link : σ) : History ι σ where
  engine := e
  link := { link }

/-- The records after an event, the messages that it led to, and whether its
answer was a refusal. -/
def noted (h : History ι σ) (event : Event) (refused : Bool) (news : List Parcel) : List Record :=
  match event with
  | .admissionRequested upload =>
    if refused then h.records else ⟨h.engine.admission upload, news, ∅⟩ :: h.records
  | .blockAckReceived c =>
    if h.engine.isActive then h.records.modifyHead (·.acknowledge c news) else h.records
  | .transferApplied .. | .blockRejected .. | .blockTimedOut _ | .cancelled => h.records

variable [Inspector ι]

/-- The history after one more operation. -/
def step (t : Transport σ μ β ε) (h : History ι σ) (op : Operation) : History ι σ :=
  let r := Engine.perform t.ledgered op h.engine h.link
  { engine := r.engine
    link := r.link
    records := h.noted op.event r.result.isRefusal (r.link.taken.drop h.link.taken.length) }

def run (t : Transport σ μ β ε) (ops : List Operation) (h : History ι σ) : History ι σ :=
  ops.foldl (step t) h

/-- Keeping a history changes nothing that the engine does. -/
theorem run_engine (t : Transport σ μ β ε) (ops : List Operation) (h : History ι σ) :
    ((run t ops h).engine, (run t ops h).link.link) = Engine.after t ops h.engine h.link.link := by
  induction ops generalizing h with
  | nil => rfl
  | cons op ops ih =>
    show ((run t ops (step t h op)).engine, (run t ops (step t h op)).link.link) = _
    rw [ih, Engine.after, ← Engine.perform_ledgered]
    rfl

def handled (t : Transport σ μ β ε) (h : History ι σ) (event : Event) : History ι σ :=
  let r := Engine.handle t.ledgered event h.engine h.link
  { engine := r.engine
    link := r.link
    records := h.noted event (Answer.outcome r.result).isRefusal
      (r.link.taken.drop h.link.taken.length) }

/-- As for the engine, an operation is the event that it comes to. -/
theorem step_eq (t : Transport σ μ β ε) (h : History ι σ) (op : Operation) :
    step t h op = handled t h op.event := by
  unfold step handled
  rw [Engine.perform_eq]
  show History.mk _ _ (h.noted _ (op.answer _).isRefusal _) = _
  rw [op.isRefusal_answer]
  rfl

/-! ## What the records say -/

/-- What the records say is true of the engine and its ledger. -/
structure Sound (h : History ι σ) : Prop where
  record_sound : ∀ r ∈ h.records, r.Sound ∧ r.admission.config = h.engine.config
  /-- Every message that was taken was taken for some session. -/
  taken_eq : h.link.taken = h.records.reverse.flatMap Record.sent
  /-- An active session is the one of the latest record. -/
  drives : ∀ {s}, h.engine.session? = some s →
    ∃ r rest, h.records = r :: rest ∧ r.Drives s

namespace Sound

omit [Inspector ι]

variable {h : History ι σ} {e : Engine ι} {l : Ledgered σ} {r : Record} {rest : List Record}

theorem ofEngine {link : σ} (hfree : e.session? = none) : (History.ofEngine e link).Sound where
  record_sound := by
    intro r hr
    cases hr
  taken_eq := rfl
  drives := by
    intro s hs
    cases hfree.symm.trans hs

/-- Where nothing was sent, the records stay as they are; the session may have
ended. -/
theorem unsent (hs : h.Sound) (hconfig : e.config = h.engine.config)
    (htaken : l.taken = h.link.taken)
    (hsession : ∀ {s}, e.session? = some s → h.engine.session? = some s) :
    Sound ⟨e, l, h.records⟩ where
  record_sound := by
    rw [hconfig]
    exact hs.record_sound
  taken_eq := htaken.trans hs.taken_eq
  drives hactive := hs.drives (hsession hactive)

theorem cons_sound (hs : h.Sound) (hrecords : h.records = r :: rest) :
    (r.Sound ∧ r.admission.config = h.engine.config) ∧
      ∀ r' ∈ rest, r'.Sound ∧ r'.admission.config = h.engine.config := by
  have hsound := hs.record_sound
  rw [hrecords] at hsound
  exact List.forall_mem_cons.1 hsound

theorem drives_of_records (hs : h.Sound) {s : Session} (hactive : h.engine.session? = some s)
    (hrecords : h.records = r :: rest) : r.Drives s := by
  obtain ⟨r', rest', hrecords', hdrives⟩ := hs.drives hactive
  cases hrecords.symm.trans hrecords'
  exact hdrives

/-- The history with a latest record, before which the ledger held what was sent
for the earlier ones. -/
theorem latest (hsound : r.Sound) (hconfig : r.admission.config = e.config)
    (hrest : ∀ r ∈ rest, r.Sound ∧ r.admission.config = e.config)
    (htaken : l.taken = rest.reverse.flatMap Record.sent ++ r.sent)
    (hdrives : ∀ {s}, e.session? = some s → r.Drives s) : Sound ⟨e, l, r :: rest⟩ where
  record_sound := List.forall_mem_cons.2 ⟨⟨hsound, hconfig⟩, hrest⟩
  taken_eq := by
    rw [htaken, Record.flatMap_sent_cons]
  drives hactive := ⟨r, rest, rfl, hdrives hactive⟩

end Sound

end History

/-! ## Entering the loop -/

namespace Engine.Enters

variable {t : Transport σ μ β ε} {e : Engine ι} {link : σ} {l : Ledgered σ} {upload : Upload}
  {c : Completion}

/-- An admission enters the filling loop with a session of its own. -/
theorem runs_of_admission {x : Filling ι σ}
    (h : Enters t e link (.admissionRequested upload) x) :
    (e.admission upload).Runs ∅ x.session := by
  cases h with
  | admission hfree hready hsession =>
    obtain ⟨hvalid, rfl⟩ := sessionOf_eq_ok_iff.1 hsession
    exact .fresh hvalid

/-- An acknowledgement enters the filling loop with the active session, one more
of whose blocks is acknowledged. -/
theorem runs_of_ack {x : Filling ι σ} (h : Enters t e link (.blockAckReceived c) x) :
    ∃ s, e.owner? c = some s ∧ x.link = link ∧ x.session.window.next = s.window.next ∧
      ∀ {a : Admission} {acked : Finset ℕ}, a.Runs acked s →
        a.Runs (insert c.num.toNat acked) x.session := by
  cases h with
  | acknowledgement howner hlast =>
    have howns := (owner?_eq_some_iff.1 howner).2
    exact ⟨_, howner, rfl, rfl, fun hruns => hruns.acknowledge howns.2.2 hlast⟩

/-- Before the first window of a session is sent, the ledger holds what was
taken before. -/
theorem sends_of_admission {x : Filling ι (Ledgered σ)}
    (h : Enters t.ledgered e l (.admissionRequested upload) x) :
    x.Sends (e.admission upload) ∅ l.taken ∧ x.link.taken = l.taken := by
  refine ⟨⟨h.runs_of_admission, ?_⟩, ?_⟩
  all_goals
    cases h with
    | admission hfree hready hsession =>
      obtain ⟨hvalid, rfl⟩ := sessionOf_eq_ok_iff.1 hsession
      first | rfl | exact (List.append_nil _).symm

end Engine.Enters

/-! ## Soundness -/

namespace History.Sound

variable {t : Transport σ μ β ε} {h : History ι σ} {c : Completion} {s : Session}

open Engine

/-- The latest record awaits the completions that the active session owns. -/
theorem exists_latest (hs : h.Sound) (howner : h.engine.owner? c = some s) :
    ∃ r rest, h.records = r :: rest ∧ r.Drives s ∧ r.Awaits c ∧
      ∀ refused news, h.noted (.blockAckReceived c) refused news =
        { r with sent := r.sent ++ news, acked := insert c.num.toNat r.acked } :: rest := by
  obtain ⟨hactive, howns⟩ := owner?_eq_some_iff.1 howner
  obtain ⟨r, rest, hrecords, hdrives⟩ := hs.drives hactive
  have hawaits : r.Awaits c := hdrives.owns_iff.1 howns
  refine ⟨r, rest, hrecords, hdrives, hawaits, fun refused news => ?_⟩
  show (if h.engine.isActive then _ else _) = _
  rw [if_pos (isActive_iff.2 ⟨s, hactive⟩), hrecords, List.modifyHead_cons, Record.acknowledge,
    if_pos hawaits]

/-- A completion that the active session does not own is not noted. -/
theorem noted_of_owner?_none (hs : h.Sound) {event : Event}
    (hcompletion : event.completion? = some c) (howner : h.engine.owner? c = none)
    (refused : Bool) (news : List Parcel) : h.noted event refused news = h.records := by
  cases event with
  | admissionRequested upload => cases hcompletion
  | blockAckReceived c' =>
    cases hcompletion
    show (if h.engine.isActive then _ else _) = _
    by_cases hactive : h.engine.isActive = true
    · obtain ⟨s, hsession⟩ := isActive_iff.1 hactive
      obtain ⟨r, rest, hrecords, hdrives⟩ := hs.drives hsession
      have hawaits : ¬ r.Awaits c := fun h' =>
        owner?_eq_none_iff.1 howner s hsession (hdrives.owns_iff.2 h')
      rw [if_pos hactive, hrecords, List.modifyHead_cons, Record.acknowledge, if_neg hawaits]
    · rw [if_neg hactive]
  | transferApplied c' code => rfl
  | blockRejected c' code => rfl
  | blockTimedOut c' => rfl
  | cancelled => rfl

/-- An acknowledgement of the last block is noted, and ends the session. -/
theorem overrun (hs : h.Sound) {e : Engine ι} (howner : h.engine.owner? c = some s)
    (hconfig : e.config = h.engine.config) (hfree : e.session? = none) (refused : Bool) :
    Sound ⟨e, h.link, h.noted (.blockAckReceived c) refused
      (h.link.taken.drop h.link.taken.length)⟩ := by
  obtain ⟨r, rest, hrecords, hdrives, -, hnoted⟩ := hs.exists_latest howner
  obtain ⟨⟨⟨hvalid, hsent⟩, hrconfig⟩, hrest⟩ := hs.cons_sound hrecords
  rw [hnoted, List.drop_length, List.append_nil]
  refine latest ⟨hvalid, hsent⟩ (hrconfig.trans hconfig.symm) ?_ ?_ ?_
  · rw [hconfig]
    exact hrest
  · rw [hs.taken_eq, hrecords, Record.flatMap_sent_cons]
  · intro s' hactive
    cases hfree.symm.trans hactive

variable [Inspector ι]

/-- An admission whose first window was sent, or part of it, begins a record. -/
theorem admitted (hs : h.Sound) {upload : Upload} {x : Filling ι (Ledgered σ)}
    {f : Filled ι (Ledgered σ) ε} {e : Engine ι}
    (henters : Enters t.ledgered h.engine h.link (.admissionRequested upload) x)
    (hfill : x.fill t.ledgered = f) (hconfig : e.config = h.engine.config)
    (hsession : ∀ {s}, e.session? = some s → s = f.session ∧ f.result = .ok ()) :
    Sound ⟨e, f.link, ⟨h.engine.admission upload, f.link.taken.drop h.link.taken.length, ∅⟩
      :: h.records⟩ := by
  obtain ⟨hsends, htaken⟩ := henters.sends_of_admission
  obtain ⟨hruns, htaken', hrests⟩ := hsends.fill (t := t)
  have hnone : x.link.taken = h.link.taken ++ [] := by rw [htaken, List.append_nil]
  have hnews := hsends.sent_append (t := t) hnone
  rw [hfill] at hruns htaken' hrests hnews
  rw [List.nil_append, htaken] at hnews
  rw [hnews]
  refine latest (Record.sound_of_runs hruns) hconfig.symm ?_ ?_ ?_
  · rw [hconfig]
    exact hs.record_sound
  · rw [htaken', hs.taken_eq]
  · intro s hactive
    obtain ⟨rfl, hresult⟩ := hsession hactive
    exact ⟨hruns, rfl, hrests hresult⟩

/-- An acknowledgement that made room for further blocks, of which some or all
were sent, adds to the latest record. -/
theorem acknowledged (hs : h.Sound) {x : Filling ι (Ledgered σ)} {f : Filled ι (Ledgered σ) ε}
    {e : Engine ι} (henters : Enters t.ledgered h.engine h.link (.blockAckReceived c) x)
    (hfill : x.fill t.ledgered = f) (hconfig : e.config = h.engine.config)
    (hsession : ∀ {s}, e.session? = some s → s = f.session ∧ f.result = .ok ()) (refused : Bool) :
    Sound ⟨e, f.link, h.noted (.blockAckReceived c) refused
      (f.link.taken.drop h.link.taken.length)⟩ := by
  obtain ⟨s, howner, hlink, hnext, hruns⟩ := henters.runs_of_ack
  obtain ⟨r, rest, hrecords, hdrives, -, hnoted⟩ := hs.exists_latest howner
  have htaken : x.link.taken = rest.reverse.flatMap Record.sent ++ r.sent := by
    rw [hlink, hs.taken_eq, hrecords, Record.flatMap_sent_cons]
  have hsends : x.Sends r.admission (insert c.num.toNat r.acked)
      (rest.reverse.flatMap Record.sent) := by
    refine ⟨hruns hdrives.runs, ?_⟩
    rw [htaken, hdrives.sent_eq, hnext]
  obtain ⟨hruns', htaken', hrests⟩ := hsends.fill (t := t)
  have hsent := hsends.sent_append (t := t) htaken
  rw [hfill] at hruns' htaken' hrests hsent
  rw [hlink] at hsent
  obtain ⟨⟨-, hrconfig⟩, hrest⟩ := hs.cons_sound hrecords
  rw [hnoted, hsent]
  refine latest (Record.sound_of_runs hruns') (hrconfig.trans hconfig.symm) ?_ htaken' ?_
  · rw [hconfig]
    exact hrest
  · intro s' hactive
    obtain ⟨rfl, hresult⟩ := hsession hactive
    exact ⟨hruns', rfl, hrests hresult⟩

theorem handled (hs : h.Sound) (event : Event) : (h.handled t event).Sound := by
  have hcourse := handle_course t.ledgered event h.engine h.link
  unfold History.handled
  generalize handle t.ledgered event h.engine h.link = r at hcourse ⊢
  cases hcourse with
  | busy hactive => exact hs.unsent rfl rfl id
  | disconnected hfree hready => exact hs.unsent rfl rfl id
  | invalid hfree hready hsession => exact hs.unsent rfl rfl id
  | admitted henters hfill hresult =>
    refine hs.admitted henters hfill rfl ?_
    rintro s ⟨⟩
    exact ⟨rfl, hresult⟩
  | aborted henters hfill hresult =>
    refine hs.admitted henters hfill rfl ?_
    rintro s ⟨⟩
  | idle hfree => exact hs.unsent rfl rfl id
  | cancelled hactive =>
    refine hs.unsent rfl rfl ?_
    rintro s ⟨⟩
  | ignored hcompletion howner =>
    dsimp only
    rw [hs.noted_of_owner?_none hcompletion howner]
    exact hs.unsent rfl rfl id
  | overrun howner hlast => refine hs.overrun howner ?_ ?_ false <;> rfl
  | advanced henters hfill hresult =>
    refine hs.acknowledged henters hfill ?_ ?_ false
    · rfl
    · rintro s ⟨⟩
      exact ⟨rfl, hresult⟩
  | broken henters hfill hresult =>
    refine hs.acknowledged henters hfill ?_ ?_ false
    · rfl
    · rintro s ⟨⟩
  | applied howner =>
    refine hs.unsent rfl rfl ?_
    rintro s ⟨⟩
  | rejected howner =>
    refine hs.unsent rfl rfl ?_
    rintro s ⟨⟩
  | timedOut howner =>
    refine hs.unsent rfl rfl ?_
    rintro s ⟨⟩

theorem step (hs : h.Sound) (op : Operation) : (h.step t op).Sound := by
  rw [step_eq]
  exact hs.handled op.event

/-- What the records say is true throughout a run. -/
theorem run (hs : h.Sound) (ops : List Operation) : (h.run t ops).Sound := by
  induction ops generalizing h with
  | nil => exact hs
  | cons op ops ih => exact ih (hs.step op)

end History.Sound

end Blockwise
