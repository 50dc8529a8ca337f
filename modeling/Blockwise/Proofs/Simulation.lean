import Blockwise.Proofs.Change
import Blockwise.Proofs.Renaming
/-!
# Two runs in step

Two histories, over transports that are alike, are in step (`History.Pair`) if their
sessions correspond: the same uploads were admitted in the same order, as many messages
were taken for each and the same blocks of it acknowledged, and the session under way is
the same but for its name.

**Why the test for ownership agrees.**  A completion is named by the place of its message
in the ledger.  At the same place in both ledgers there is a message for the same block of
corresponding sessions (`History.Pair.exists_parcels`).  If these are the latest sessions,
the completion has their names, and whether its block waits for an answer is the same in
both runs.  If they are earlier ones, the completion has another generation than the latest
session, in both runs, as generations do not repeat (`History.Pair.awaits_iff`).
-/

namespace Blockwise

variable {ι σ μ β ε : Type}

/-! ## Names of sessions -/

def Admission.name (a : Admission) : Name where
  token := a.token
  generation := a.generation

namespace History

/-- The names of the sessions that were admitted, the latest first. -/
def names (h : History ι σ) : List Name := h.admissions.map Admission.name

/-- The name of the latest session; any name if there is none. -/
def name (h : History ι σ) : Name := h.names.headD default

theorem name_congr {h h' : History ι σ} (hnames : h.names = h'.names) : h.name = h'.name :=
  congrArg (·.headD default) hnames

theorem NumberedFrom.nodup_generations {g : UInt32} {h : History ι σ} (hn : h.NumberedFrom g)
    (hlength : h.names.length ≤ UInt32.size) : (h.admissions.map Admission.generation).Nodup := by
  rw [names, List.length_map] at hlength
  exact hn.nodup hlength

theorem nodup_names {h : History ι σ} (hnodup : (h.admissions.map Admission.generation).Nodup) :
    h.names.Nodup := by
  refine List.Nodup.of_map Name.generation ?_
  rw [names, List.map_map]
  exact hnodup

end History

/-! ## Corresponding sessions -/

/-- The same upload was admitted, and has come equally far. -/
structure Record.Pair (r r' : Record) : Prop where
  upload_eq : r.admission.upload = r'.admission.upload
  config_eq : r.admission.config = r'.admission.config
  length_eq : r.sent.length = r'.sent.length
  acked_eq : r.acked = r'.acked

namespace Record.Pair

variable {r r' : Record} {rs rs' : List Record}

/-- As many messages were taken for corresponding sessions. -/
theorem length_flatMap (h : List.Forall₂ Pair rs rs') :
    (rs.reverse.flatMap sent).length = (rs'.reverse.flatMap sent).length := by
  induction h with
  | nil => rfl
  | cons hr _ ih =>
    rw [flatMap_sent_cons, flatMap_sent_cons, List.length_append, List.length_append, ih,
      hr.length_eq]

/-- Of two corresponding lists of sessions, the messages at one place are for the same
block of the latest sessions, or of two earlier ones. -/
theorem parcels_cons (hr : r.Sound) (hr' : r'.Sound)
    (hrest : List.Forall₂ Pair rs rs') {place : ℕ} {p p' : Parcel}
    (hp : ((r :: rs).reverse.flatMap sent)[place]? = some p)
    (hp' : ((r' :: rs').reverse.flatMap sent)[place]? = some p') :
    (∃ i, p = r.admission.parcel i ∧ p' = r'.admission.parcel i) ∨
      (rs.reverse.flatMap sent)[place]? = some p ∧
        (rs'.reverse.flatMap sent)[place]? = some p' := by
  have hlength := length_flatMap hrest
  rw [flatMap_sent_cons] at hp hp'
  rcases Nat.lt_or_ge place (rs.reverse.flatMap sent).length with hlt | hge
  · rw [List.getElem?_append_left hlt] at hp
    rw [List.getElem?_append_left (hlength ▸ hlt)] at hp'
    exact .inr ⟨hp, hp'⟩
  · rw [List.getElem?_append_right hge] at hp
    rw [List.getElem?_append_right (hlength ▸ hge), ← hlength] at hp'
    exact .inl ⟨_, (hr.getElem?_sent_iff.1 hp).2.symm, (hr'.getElem?_sent_iff.1 hp').2.symm⟩

/-- The messages at one place are for the same block of two of the sessions. -/
theorem exists_parcels (h : List.Forall₂ Pair rs rs') (hrs : ∀ r ∈ rs, r.Sound)
    (hrs' : ∀ r ∈ rs', r.Sound) {place : ℕ} {p p' : Parcel}
    (hp : (rs.reverse.flatMap sent)[place]? = some p)
    (hp' : (rs'.reverse.flatMap sent)[place]? = some p') :
    ∃ r ∈ rs, ∃ r' ∈ rs', ∃ i, p = r.admission.parcel i ∧ p' = r'.admission.parcel i := by
  induction h with
  | nil => cases hp
  | cons hpair hrest ih =>
    obtain ⟨hr, hrs⟩ := List.forall_mem_cons.1 hrs
    obtain ⟨hr', hrs'⟩ := List.forall_mem_cons.1 hrs'
    rcases parcels_cons hr hr' hrest hp hp' with ⟨i, hi⟩ | ⟨hp, hp'⟩
    · exact ⟨_, List.mem_cons_self, _, List.mem_cons_self, i, hi⟩
    · obtain ⟨q, hq, q', hq', hi⟩ := ih hrs hrs' hp hp'
      exact ⟨q, List.mem_cons_of_mem _ hq, q', List.mem_cons_of_mem _ hq', hi⟩

/-- The same block of corresponding sessions waits for an answer in both, or in neither. -/
theorem awaits_parcel_iff (h : r.Pair r') (i : ℕ) :
    r.Awaits (r.admission.parcel i).completion ↔ r'.Awaits (r'.admission.parcel i).completion := by
  have hnum : (r.admission.parcel i).completion.num = (r'.admission.parcel i).completion.num := rfl
  unfold Awaits
  rw [hnum, h.length_eq, h.acked_eq]
  exact and_congr (by exact iff_of_true rfl rfl) (and_congr (by exact iff_of_true rfl rfl) Iff.rfl)

/-- Corresponding sessions gain as many messages and the same acknowledgement. -/
theorem acknowledge (h : r.Pair r') {c c' : Completion} {news news' : List Parcel}
    (hnum : c.num = c'.num) (hawaits : r.Awaits c ↔ r'.Awaits c')
    (hlength : news.length = news'.length) :
    (r.acknowledge c news).Pair (r'.acknowledge c' news') := by
  unfold Record.acknowledge
  by_cases hc : r.Awaits c
  · rw [if_pos hc, if_pos (hawaits.1 hc)]
    refine ⟨h.upload_eq, h.config_eq, ?_, ?_⟩
    · rw [List.length_append, List.length_append, h.length_eq, hlength]
    · rw [hnum, h.acked_eq]
  · rw [if_neg hc, if_neg fun hc' => hc (hawaits.2 hc')]
    exact h

end Record.Pair

/-! ## Histories in step -/

namespace History

/-- Two runs are in step, on links that are related. -/
structure Pair (R : σ → σ → Prop) (h h' : History ι (Recorded σ)) : Prop where
  sound : h.Sound
  sound' : h'.Sound
  engine : Engine.Pair h.name h'.name h.engine h'.engine
  records : List.Forall₂ Record.Pair h.records h'.records
  status_eq : h.names ≠ [] → h.engine.status = h'.engine.status
  link : R h.link.link.link h'.link.link.link

namespace Pair

variable {R : σ → σ → Prop} {h h' : History ι (Recorded σ)}

theorem length_taken (hp : Pair R h h') : h.link.taken.length = h'.link.taken.length := by
  rw [hp.sound.taken_eq, hp.sound'.taken_eq]
  exact Record.Pair.length_flatMap hp.records

theorem length_names_eq (hp : Pair R h h') : h.names.length = h'.names.length := by
  simpa only [names, admissions, List.length_map] using hp.records.length_eq

/-- The links before a step, with nothing called yet. -/
theorem start (hp : Pair R h h') (n n' : Name) :
    Ledgered.Pair (Recorded.Pair R n n' h.link.link.calls.toList h'.link.link.calls.toList)
      h.link h'.link where
  link := ⟨hp.link, [], (List.append_nil _).symm, (List.append_nil _).symm⟩
  length_eq := hp.length_taken

section Owner

variable {place : ℕ} {p p' : Parcel}

/-- The messages at one place of the ledgers are for the same block. -/
theorem num_eq (hp : Pair R h h') (hget : h.link.taken[place]? = some p)
    (hget' : h'.link.taken[place]? = some p') : p.completion.num = p'.completion.num := by
  rw [hp.sound.taken_eq] at hget
  rw [hp.sound'.taken_eq] at hget'
  obtain ⟨r, -, r', -, i, rfl, rfl⟩ := Record.Pair.exists_parcels hp.records
    (fun r hr => (hp.sound.record_sound r hr).1) (fun r hr => (hp.sound'.record_sound r hr).1)
    hget hget'
  rfl

/-- An earlier session has another generation than the latest. -/
theorem not_awaits_of_earlier {r q : Record} {rest : List Record} (hq : q ∈ rest)
    (hnodup : ((r :: rest).map fun r => r.admission.generation).Nodup) (i : ℕ) :
    ¬ r.Awaits (q.admission.parcel i).completion := by
  intro hawaits
  have hgeneration : q.admission.generation = r.admission.generation := hawaits.2.1
  rw [List.map_cons, List.nodup_cons] at hnodup
  exact hnodup.1 (hgeneration ▸ List.mem_map_of_mem hq)

/-- The messages at one place of the ledgers are both awaited by the latest sessions, or
neither is. -/
theorem awaits_iff (hp : Pair R h h')
    (hnodup : (h.admissions.map Admission.generation).Nodup)
    (hnodup' : (h'.admissions.map Admission.generation).Nodup)
    (hget : h.link.taken[place]? = some p) (hget' : h'.link.taken[place]? = some p')
    {r r' : Record} {rest rest' : List Record} (hrecords : h.records = r :: rest)
    (hrecords' : h'.records = r' :: rest') : r.Awaits p.completion ↔ r'.Awaits p'.completion := by
  have hforall := hp.records
  rw [hp.sound.taken_eq, hrecords] at hget
  rw [hp.sound'.taken_eq, hrecords'] at hget'
  rw [admissions, List.map_map, hrecords] at hnodup
  rw [admissions, List.map_map, hrecords'] at hnodup'
  rw [hrecords, hrecords'] at hforall
  obtain ⟨⟨hr, -⟩, hrest⟩ := hp.sound.cons_sound hrecords
  obtain ⟨⟨hr', -⟩, hrest'⟩ := hp.sound'.cons_sound hrecords'
  obtain ⟨hpair, hpairs⟩ := List.forall₂_cons.1 hforall
  rcases Record.Pair.parcels_cons hr hr' hpairs hget hget' with ⟨i, rfl, rfl⟩ | ⟨hget, hget'⟩
  · exact hpair.awaits_parcel_iff i
  · obtain ⟨q, hq, q', hq', i, rfl, rfl⟩ := Record.Pair.exists_parcels hpairs
      (fun q hq => (hrest q hq).1) (fun q hq => (hrest' q hq).1) hget hget'
    exact iff_of_false (not_awaits_of_earlier hq hnodup i) (not_awaits_of_earlier hq' hnodup' i)

/-- The messages at one place of the ledgers are owned alike. -/
theorem owner?_pair (hp : Pair R h h')
    (hnodup : (h.admissions.map Admission.generation).Nodup)
    (hnodup' : (h'.admissions.map Admission.generation).Nodup)
    (hget : h.link.taken[place]? = some p) (hget' : h'.link.taken[place]? = some p') :
    ∃ s : Option Session, h.engine.owner? p.completion = s.map (Session.under h.name) ∧
      h'.engine.owner? p'.completion = s.map (Session.under h'.name) := by
  obtain ⟨-, s, hs, hs'⟩ := hp.engine
  refine Engine.owner?_pair hs hs' ?_
  rintro s rfl
  obtain ⟨r, rest, hrecords, hdrives⟩ := hp.sound.drives hs
  obtain ⟨r', rest', hrecords', hdrives'⟩ := hp.sound'.drives hs'
  rw [hdrives.owns_iff, hdrives'.owns_iff]
  exact hp.awaits_iff hnodup hnodup' hget hget' hrecords hrecords'

end Owner

/-! ## One step -/

variable [Inspector ι] {t t' : Transport σ μ β ε} {M : μ → μ → Prop}

/-- Two steps in which the same happened but for the names: the runs are in step again, and
the reactions are the same but for the names of the sessions that are the latest then. -/
structure Step (R : σ → σ → Prop) (t t' : Transport σ μ β ε) (event event' : Event)
    (h h' : History ι (Recorded σ)) : Prop where
  pair : Pair R (h.handled t.recorded event) (h'.handled t'.recorded event')
  reaction : Reaction.Pair
    (Ledgered.Pair (Recorded.Pair R (h.handled t.recorded event).name
      (h'.handled t'.recorded event').name h.link.link.calls.toList h'.link.link.calls.toList))
    (h.handled t.recorded event).name (h'.handled t'.recorded event').name event h.engine h'.engine
    (Engine.handle t.recorded.ledgered event h.engine h.link)
    (Engine.handle t'.recorded.ledgered event' h'.engine h'.link)

/-- The runs are in step again if the reactions and the records correspond.  Where the slot
was left as it was, no session may have been added. -/
theorem step_of_reaction (hp : Pair R h h') {event event' : Event} {n n' : Name}
    (hreaction : Reaction.Pair
      (Ledgered.Pair (Recorded.Pair R n n' h.link.link.calls.toList h'.link.link.calls.toList))
      n n' event h.engine h'.engine
      (Engine.handle t.recorded.ledgered event h.engine h.link)
      (Engine.handle t'.recorded.ledgered event' h'.engine h'.link))
    (hname : (h.handled t.recorded event).name = n)
    (hname' : (h'.handled t'.recorded event').name = n')
    (hrecords : List.Forall₂ Record.Pair (h.handled t.recorded event).records
      (h'.handled t'.recorded event').records)
    (hkept : (event.isRequest = true → (Answer.outcome (Engine.handle t.recorded.ledgered event
        h.engine h.link).result).isRefusal = true) →
      n = h.name ∧ n' = h'.name ∧ ((h.handled t.recorded event).names ≠ [] → h.names ≠ [])) :
    Step R t t' event event' h h' := by
  subst hname hname'
  refine ⟨⟨hp.sound.handled event, hp.sound'.handled event', ⟨?_, ?_⟩, hrecords, ?_, ?_⟩, hreaction⟩
  · show (Engine.handle t.recorded.ledgered event h.engine h.link).engine.config =
      (Engine.handle t'.recorded.ledgered event' h'.engine h'.link).engine.config
    rw [Engine.config_handle, Engine.config_handle]
    exact hp.engine.config_eq
  · rcases hreaction.slot with ⟨hslot, hslot', hrefused⟩ | ⟨slot, hslot, hslot'⟩
    · obtain ⟨hname, hname', -⟩ := hkept hrefused
      obtain ⟨s, hs, hs'⟩ := hp.engine.session
      rw [hname, hname']
      exact ⟨s, (congrArg Slot.session? hslot).trans hs, (congrArg Slot.session? hslot').trans hs'⟩
    · exact ⟨slot.session?, (congrArg Slot.session? hslot).trans (slot.session?_under _),
        (congrArg Slot.session? hslot').trans (slot.session?_under _)⟩
  · intro hne
    rcases hreaction.slot with ⟨hslot, hslot', hrefused⟩ | ⟨slot, hslot, hslot'⟩
    · obtain ⟨-, -, hrest⟩ := hkept hrefused
      exact (congrArg Slot.status hslot).trans
        ((hp.status_eq (hrest hne)).trans (congrArg Slot.status hslot').symm)
    · exact (congrArg Slot.status hslot).trans ((slot.status_under _).trans
        ((slot.status_under _).symm.trans (congrArg Slot.status hslot').symm))
  · exact hreaction.link.link.link

/-- A request keeps the runs in step. -/
theorem request (halike : ∀ n n', t.Alike t' R M n n') (hp : Pair R h h') (upload : Upload) :
    Step R t t' (.admissionRequested upload) (.admissionRequested upload) h h' := by
  have hreaction : ∀ n n', (_ → n = h.engine.opens ∧ n' = h'.engine.opens) → _ := fun n n' hopen =>
    Engine.request_pair ((halike n n').recorded _ _).ledgered hp.engine (hp.start n n') upload hopen
  cases hrefused : (Answer.outcome (Engine.handle t.recorded.ledgered (.admissionRequested upload)
      h.engine h.link).result).isRefusal with
  | true =>
    have hpair := hreaction h.name h'.name (by rw [hrefused]; rintro ⟨⟩)
    have hrecords : (h.handled t.recorded (.admissionRequested upload)).records = h.records :=
      if_pos hrefused
    have hrecords' : (h'.handled t'.recorded (.admissionRequested upload)).records = h'.records :=
      if_pos (hpair.isRefusal_eq.trans hrefused)
    have hnames : (h.handled t.recorded (.admissionRequested upload)).names = h.names := by
      rw [names, admissions, hrecords]
      rfl
    have hnames' : (h'.handled t'.recorded (.admissionRequested upload)).names = h'.names := by
      rw [names, admissions, hrecords']
      rfl
    refine hp.step_of_reaction hpair (name_congr hnames) (name_congr hnames') ?_ fun _ =>
      ⟨rfl, rfl, fun hne => hnames ▸ hne⟩
    rw [hrecords, hrecords']
    exact hp.records
  | false =>
    have hpair := hreaction h.engine.opens h'.engine.opens fun _ => ⟨rfl, rfl⟩
    have hrecords : (h.handled t.recorded (.admissionRequested upload)).records = _ :: h.records :=
      if_neg (by rw [hrefused]; exact Bool.false_ne_true)
    have hrecords' : (h'.handled t'.recorded (.admissionRequested upload)).records =
        _ :: h'.records :=
      if_neg (by rw [hpair.isRefusal_eq, hrefused]; exact Bool.false_ne_true)
    refine hp.step_of_reaction hpair ?_ ?_ ?_ fun hkept => ?_
    · rw [name, names, admissions, hrecords]
      rfl
    · rw [name, names, admissions, hrecords']
      rfl
    · rw [hrecords, hrecords']
      refine .cons ⟨rfl, hp.engine.config_eq, ?_, rfl⟩ hp.records
      rw [List.length_drop, List.length_drop, hpair.link.length_eq, hp.length_taken]
    · cases hrefused.symm.trans (hkept rfl)

omit [Inspector ι] in
/-- An acknowledgement for the messages at one place is noted alike. -/
theorem noted_ack (hp : Pair R h h') (hnodup : (h.admissions.map Admission.generation).Nodup)
    (hnodup' : (h'.admissions.map Admission.generation).Nodup) {place : ℕ} {p p' : Parcel}
    (hget : h.link.taken[place]? = some p) (hget' : h'.link.taken[place]? = some p')
    (refused refused' : Bool) {news news' : List Parcel} (hlength : news.length = news'.length) :
    List.Forall₂ Record.Pair (h.noted (.blockAckReceived p.completion) refused news)
      (h'.noted (.blockAckReceived p'.completion) refused' news') := by
  obtain ⟨-, s, hs, hs'⟩ := hp.engine
  show List.Forall₂ _ (if h.engine.isActive then _ else _) (if h'.engine.isActive then _ else _)
  cases s with
  | none =>
    rw [if_neg (by rw [Engine.not_isActive_of_session? hs]; exact Bool.false_ne_true),
      if_neg (by rw [Engine.not_isActive_of_session? hs']; exact Bool.false_ne_true)]
    exact hp.records
  | some s =>
    obtain ⟨r, rest, hrecords, -⟩ := hp.sound.drives hs
    obtain ⟨r', rest', hrecords', -⟩ := hp.sound'.drives hs'
    have hforall := hp.records
    rw [hrecords, hrecords'] at hforall
    obtain ⟨hpair, hpairs⟩ := List.forall₂_cons.1 hforall
    rw [if_pos (Engine.isActive_iff.2 ⟨_, hs⟩), if_pos (Engine.isActive_iff.2 ⟨_, hs'⟩), hrecords,
      hrecords', List.modifyHead_cons, List.modifyHead_cons]
    exact .cons (hpair.acknowledge (hp.num_eq hget hget')
      (hp.awaits_iff hnodup hnodup' hget hget' hrecords hrecords') hlength) hpairs

/-- A report about the messages at one place keeps the runs in step, and so does what asks
for nothing. -/
theorem report (halike : ∀ n n', t.Alike t' R M n n') (hp : Pair R h h')
    (hnodup : (h.admissions.map Admission.generation).Nodup)
    (hnodup' : (h'.admissions.map Admission.generation).Nodup) {event : Event}
    (hrequest : event.isRequest = false) {c c' : Completion}
    (hplace : event.completion?.isSome = true → ∃ (place : ℕ) (p p' : Parcel),
      h.link.taken[place]? = some p ∧ h'.link.taken[place]? = some p' ∧
        p.completion = c ∧ p'.completion = c') :
    Step R t t' (event.about c) (event.about c') h h' := by
  have hpair := Engine.report_pair ((halike h.name h'.name).recorded _ _).ledgered hp.engine
    (hp.start _ _) hrequest c c' (fun hsome => by
      obtain ⟨place, p, p', hget, hget', rfl, rfl⟩ := hplace hsome
      exact ⟨hp.num_eq hget hget', hp.owner?_pair hnodup hnodup' hget hget'⟩)
  -- No session is added, so the latest keeps its name.
  have hnames : (h.handled t.recorded (event.about c)).names = h.names :=
    congrArg (List.map _) (admissions_noted (.inl ((Event.isRequest_about c event).trans hrequest)))
  have hnames' : (h'.handled t'.recorded (event.about c')).names = h'.names :=
    congrArg (List.map _)
      (admissions_noted (.inl ((Event.isRequest_about c' event).trans hrequest)))
  refine hp.step_of_reaction hpair (name_congr hnames) (name_congr hnames') ?_ fun _ =>
    ⟨rfl, rfl, fun hne => hnames ▸ hne⟩
  cases event with
  | blockAckReceived c₀ =>
    obtain ⟨place, p, p', hget, hget', rfl, rfl⟩ := hplace rfl
    refine hp.noted_ack hnodup hnodup' hget hget' false false ?_
    rw [List.length_drop, List.length_drop, hpair.link.length_eq, hp.length_taken]
  | admissionRequested upload => cases hrequest
  | transferApplied c₀ code => exact hp.records
  | blockRejected c₀ code => exact hp.records
  | blockTimedOut c₀ => exact hp.records
  | cancelled => exact hp.records

end Pair

end History

end Blockwise
