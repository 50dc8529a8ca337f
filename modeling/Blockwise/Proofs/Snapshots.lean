import Mathlib.Algebra.Order.BigOperators.Group.Finset
import Mathlib.Algebra.Order.BigOperators.Group.List
import Blockwise.Proofs.Change
import Blockwise.Proofs.Progress
/-!
# What a snapshot says, and how snapshots follow each other

A snapshot of the active session is computed from two counters and from the blocks that
are out.  The record of the session says what it ought to be: `Progress.Tells` compares
each of its fields with the messages that were taken and with the blocks that were
acknowledged, and the octets that are counted are those of the acknowledged messages.

**Records of a session only grow.**  As long as no further session is admitted, what was
sent stays sent and what was acknowledged stays acknowledged (`History.Sound.extends_run`).
So of two snapshots of one session the later is nowhere behind (`Progress.LeadsTo`).
-/

namespace Blockwise

variable {ι σ μ β ε : Type}

/-! ## Answered and unanswered messages -/

namespace Record

/-- The messages of the session that were acknowledged, in the order in which they were
sent. -/
def answered (r : Record) : List Parcel := r.sent.filter (·.completion.num.toNat ∈ r.acked)

/-- The messages of the session that wait for an answer, in the order in which they were
sent. -/
def unanswered (r : Record) : List Parcel := r.sent.filter (·.completion.num.toNat ∉ r.acked)

theorem length_answered_add_unanswered (r : Record) :
    r.answered.length + r.unanswered.length = r.sent.length := by
  have hlength := List.length_eq_length_filter_add (l := r.sent)
    (fun p => decide (p.completion.num.toNat ∈ r.acked))
  simp only [← decide_not] at hlength
  exact hlength.symm

variable {r : Record} {s : Session}

/-- The acknowledged messages are those of the acknowledged blocks. -/
theorem Drives.answered_perm (h : r.Drives s) :
    r.answered.Perm (r.acked.toList.map r.admission.parcel) := by
  have hvalid := h.runs.valid
  have hnext := h.runs.next_le
  have hnum : ∀ {i}, i < s.window.next.toNat →
      (r.admission.parcel i).completion.num.toNat = i := fun hi => hvalid.toNat_num (hi.trans_le hnext)
  have hsent : r.answered.Nodup := by
    unfold answered
    rw [h.sent_eq]
    exact (hvalid.nodup_parcels hnext).filter _
  have hblocks : (r.acked.toList.map r.admission.parcel).Nodup := by
    refine List.Nodup.map_on (fun i hi j hj hij => ?_) r.acked.nodup_toList
    rw [Finset.mem_toList] at hi hj
    rw [← hnum (h.runs.tracks.lt_next i hi), hij, hnum (h.runs.tracks.lt_next j hj)]
  refine (List.perm_ext_iff_of_nodup hsent hblocks).2 fun p => ?_
  unfold answered
  simp only [List.mem_filter, decide_eq_true_iff, List.mem_map, Finset.mem_toList, h.sent_eq,
    Admission.mem_parcels]
  constructor
  · rintro ⟨⟨i, hi, rfl⟩, hacked⟩
    rw [hnum hi] at hacked
    exact ⟨i, hacked, rfl⟩
  · rintro ⟨i, hi, rfl⟩
    have hlt := h.runs.tracks.lt_next i hi
    exact ⟨⟨i, hlt, rfl⟩, by rwa [hnum hlt]⟩

/-- As many messages wait as blocks are out. -/
theorem Drives.length_unanswered (h : r.Drives s) :
    r.unanswered.length = s.window.inFlight.size := by
  have hanswered := h.answered_perm.length_eq
  have hall := r.length_answered_add_unanswered
  have hsize := h.runs.tracks.size_add_card
  rw [List.length_map, Finset.length_toList] at hanswered
  rw [h.sent_eq, Admission.length_parcels] at hall
  omega

end Record

/-! ## One snapshot -/

/-- What the snapshot says is what the record of the session says. -/
structure Progress.Tells (p : Progress) (r : Record) : Prop where
  token_eq : p.token = r.admission.token
  totalBlocks_eq : p.totalBlocks.toNat = r.admission.total
  window_eq : p.window = r.admission.limit
  totalBytes_eq : p.totalBytes = r.admission.upload.body.size
  nextToSend_eq : p.nextToSend.toNat = r.sent.length
  /-- One past the greatest acknowledged block. -/
  highestAcked_eq : p.highestAcked.toNat = r.acked.sup (· + 1)
  inFlight_eq : p.inFlight = r.unanswered.length
  /-- The octets that are counted are those of the acknowledged messages. -/
  ackedBytes_eq : p.ackedBytes = (r.answered.map (·.payload.size)).sum
  ackedBytes_lt : p.ackedBytes < p.totalBytes

namespace Admission.Runs

variable {a : Admission} {acked : Finset ℕ} {s : Session}

/-- A block that was sent carries something. -/
theorem size_payloadAt_pos (h : a.Runs acked s) {i : ℕ} (hi : i < s.window.next.toNat) :
    0 < (Block.payloadAt s.body s.size i).size := by
  have hlt : i < a.size.blocksFor a.upload.body.size := hi.trans_le h.next_le
  have hinside := Size.lt_blocksFor_iff.1 hlt
  have hpos := a.size.bytes_pos
  rw [h.session_eq, Block.size_payloadAt]
  show 0 < min a.size.bytes (a.upload.body.size - i * a.size.bytes)
  omega

/-- As long as a session waits, it waits for some octets. -/
theorem pendingBytes_pos (h : a.Runs acked s) (hrest : ¬ s.window.CanSend) :
    0 < s.pendingBytes := by
  have hout := h.size_inFlight_pos hrest
  have hsize := h.tracks.size_add_card
  rw [h.pendingBytes_eq]
  refine Finset.sum_pos (fun i hi => ?_) (Finset.card_pos.1 ?_)
  · exact h.size_payloadAt_pos (Finset.mem_range.1 (Finset.mem_sdiff.1 hi).1)
  · have hcard := Finset.le_card_sdiff acked (Finset.range s.window.next.toNat)
    rw [Finset.card_range] at hcard
    omega

end Admission.Runs

/-- The snapshot of a session that waits says what its record says. -/
theorem Record.Drives.progress_tells {r : Record} {s : Session} (h : r.Drives s) :
    s.progress.Tells r where
  token_eq := by
    rw [h.runs.session_eq]
    rfl
  totalBlocks_eq := h.runs.toNat_total
  window_eq := h.runs.limit_eq
  totalBytes_eq := by
    rw [h.runs.session_eq]
    rfl
  nextToSend_eq := by
    rw [h.sent_eq, Admission.length_parcels]
    rfl
  highestAcked_eq := h.runs.tracks.highest_eq
  inFlight_eq := h.length_unanswered.symm
  ackedBytes_eq := by
    have hbytes := h.runs.pendingBytes_add
    rw [(h.answered_perm.map _).sum_eq, List.map_map, Finset.sum_map_toList]
    show s.sentBytes - s.pendingBytes = ∑ i ∈ r.acked, (r.admission.parcel i).payload.size
    rw [h.runs.session_eq] at hbytes ⊢
    exact Nat.sub_eq_of_eq_add' hbytes.symm
  ackedBytes_lt := by
    have hsent := s.sentBytes_le
    have hpending := h.runs.pendingBytes_pos h.rests
    have hle := h.runs.pendingBytes_le
    show s.sentBytes - s.pendingBytes < s.body.size
    omega

/-! ## Later states of a record -/

/-- The record `r'` is of the same session as `r`, at the same time or later. -/
structure Record.Extends (r r' : Record) : Prop where
  admission_eq : r'.admission = r.admission
  sent_prefix : r.sent <+: r'.sent
  acked_subset : r.acked ⊆ r'.acked

namespace Record.Extends

variable {r r' r'' : Record}

theorem refl (r : Record) : r.Extends r := ⟨rfl, List.prefix_rfl, subset_rfl⟩

theorem trans (h : r.Extends r') (h' : r'.Extends r'') : r.Extends r'' where
  admission_eq := h'.admission_eq.trans h.admission_eq
  sent_prefix := h.sent_prefix.trans h'.sent_prefix
  acked_subset := h.acked_subset.trans h'.acked_subset

/-- An answered message stays answered. -/
theorem answered_sublist (h : r.Extends r') : r.answered.Sublist r'.answered := by
  unfold answered
  refine (h.sent_prefix.sublist.filter _).trans (List.monotone_filter_right _ fun p hp => ?_)
  rw [decide_eq_true_iff] at hp ⊢
  exact h.acked_subset hp

end Record.Extends

namespace History

variable {h h' : History ι σ} {event : Event} {outcome : Option (Outcome ε)}

/-- Where a session is active after an event that admitted none, it was active before, and
its record has grown. -/
theorem Change.extends_head (hc : Change h event outcome h')
    (hlength : h'.records.length = h.records.length)
    (hactive : h'.engine.session?.isSome) :
    h.engine.session?.isSome ∧
      ∀ r ∈ h.records.head?, ∃ r' ∈ h'.records.head?, r.Extends r' := by
  cases hc with
  | refused _ hsession _ _ hrecords =>
    rw [hsession] at hactive
    rw [hrecords]
    exact ⟨hactive, fun r hr => ⟨r, hr, .refl r⟩⟩
  | kept => exact ⟨hactive, fun r hr => ⟨r, hr, .refl r⟩⟩
  | admitted _ _ _ hrecords =>
    rw [hrecords, List.length_cons] at hlength
    omega
  | aborted _ hsession =>
    rw [hsession] at hactive
    cases hactive
  | advanced howner _ _ hrecords hrecords' =>
    rw [hrecords, hrecords', (Engine.owner?_eq_some_iff.1 howner).1]
    refine ⟨rfl, ?_⟩
    rintro r ⟨⟩
    exact ⟨_, rfl, rfl, List.prefix_append _ _, Finset.subset_insert _ _⟩
  | completed _ hsession =>
    rw [hsession] at hactive
    cases hactive
  | failed _ _ _ hsession =>
    rw [hsession] at hactive
    cases hactive

/-- The record of the active session, of which every snapshot tells. -/
theorem Sound.exists_tells (hs : h.Sound) {p : Progress} (hp : h.engine.progress = some p) :
    ∃ r ∈ h.records.head?, p.Tells r := by
  obtain ⟨s, hactive, rfl⟩ := Option.map_eq_some_iff.1 hp
  obtain ⟨r, rest, hrecords, hdrives⟩ := hs.drives hactive
  rw [hrecords]
  exact ⟨r, rfl, hdrives.progress_tells⟩

variable [Inspector ι] {t : Transport σ μ β ε}

/-- Records are added, and none is taken away. -/
theorem Sound.length_records_le_run (hs : h.Sound) (ops : List Operation) :
    h.records.length ≤ (h.run t ops).records.length := by
  have hsuffix := (hs.admissions_suffix_run (t := t) ops).length_le
  unfold admissions at hsuffix
  rwa [List.length_map, List.length_map] at hsuffix

/-- Where a session is active after a run that admitted none, its record has grown since. -/
theorem Sound.extends_run (hs : h.Sound) (ops : List Operation)
    (hlength : (h.run t ops).records.length = h.records.length)
    (hactive : (h.run t ops).engine.session?.isSome) :
    ∀ r ∈ h.records.head?, ∃ r' ∈ (h.run t ops).records.head?, r.Extends r' := by
  induction ops using List.reverseRecOn with
  | nil => exact fun r hr => ⟨r, hr, .refl r⟩
  | append_singleton ops op ih =>
    have hs' : (h.run t ops).Sound := hs.run ops
    obtain ⟨outcome, -, hchange⟩ := hs'.step_change (t := t) op
    have hle := hs.length_records_le_run (t := t) ops
    have hle' := hs'.length_records_le_run (t := t) [op]
    rw [run_concat] at hlength hactive ⊢
    change _ ≤ ((h.run t ops).step t op).records.length at hle'
    -- Between the two ends no session was admitted either, so the one before is the same.
    obtain ⟨hactive', hhead⟩ := hchange.extends_head (by omega) hactive
    intro r hr
    obtain ⟨r₁, hr₁, hext₁⟩ := ih (by omega) hactive' r hr
    obtain ⟨r₂, hr₂, hext₂⟩ := hhead r₁ hr₁
    exact ⟨r₂, hr₂, hext₁.trans hext₂⟩

end History

/-! ## Two snapshots -/

/-- The snapshot `p'` is of the same upload as `p`, and in nothing behind it. -/
structure Progress.LeadsTo (p p' : Progress) : Prop where
  token_eq : p'.token = p.token
  totalBlocks_eq : p'.totalBlocks = p.totalBlocks
  window_eq : p'.window = p.window
  totalBytes_eq : p'.totalBytes = p.totalBytes
  nextToSend_le : p.nextToSend ≤ p'.nextToSend
  highestAcked_le : p.highestAcked ≤ p'.highestAcked
  ackedBytes_le : p.ackedBytes ≤ p'.ackedBytes

/-- As records grow, so do the snapshots that tell of them. -/
theorem Progress.Tells.leadsTo {p p' : Progress} {r r' : Record} (h : p.Tells r)
    (h' : p'.Tells r') (hext : r.Extends r') : p.LeadsTo p' where
  token_eq := by rw [h.token_eq, h'.token_eq, hext.admission_eq]
  totalBlocks_eq := by
    rw [← UInt32.toNat_inj, h.totalBlocks_eq, h'.totalBlocks_eq, hext.admission_eq]
  window_eq := by rw [h.window_eq, h'.window_eq, hext.admission_eq]
  totalBytes_eq := by rw [h.totalBytes_eq, h'.totalBytes_eq, hext.admission_eq]
  nextToSend_le := by
    rw [UInt32.le_iff_toNat_le, h.nextToSend_eq, h'.nextToSend_eq]
    exact hext.sent_prefix.length_le
  highestAcked_le := by
    rw [UInt32.le_iff_toNat_le, h.highestAcked_eq, h'.highestAcked_eq]
    exact Finset.sup_mono hext.acked_subset
  ackedBytes_le := by
    rw [h.ackedBytes_eq, h'.ackedBytes_eq]
    exact (hext.answered_sublist.map _).sum_le_sum fun _ _ => Nat.zero_le _

/-- **Snapshots are exact, and move forward only.**  In every state between two operations
in which a session is active, its snapshot says what the record of the session says: the
octets acknowledged are those of the messages that were acknowledged with 2.31, fewer than
the body has, and what is in flight are the messages that wait for an answer.  Whatever is
asked or reported from there on, as long as no further session is admitted, a later
snapshot is of the same upload and in nothing behind. -/
theorem progress_exact [Inspector ι] (t : Transport σ μ β ε) (stream : WordStream)
    (config : Config) (inspector : ι) (link : σ) (ops : List Operation) (p : Progress) :
    let fresh := Engine.ofStream stream config inspector
    let state := Engine.after t ops fresh link
    let h := (History.ofEngine fresh link).run t ops
    state.1.progress = some p →
      (∃ r ∈ h.records.head?, p.Tells r) ∧
      ∀ more p', (Engine.after t more state.1 state.2).1.progress = some p' →
        (h.run t more).records.length = h.records.length → p.LeadsTo p' := by
  intro fresh state h hp
  have hs : h.Sound := (History.Sound.ofEngine rfl).run ops
  have hstate : (h.engine, h.link.link) = state := History.run_engine t ops _
  rw [← hstate] at hp ⊢
  obtain ⟨r, hr, htells⟩ := hs.exists_tells hp
  refine ⟨⟨r, hr, htells⟩, fun more p' hp' hlength => ?_⟩
  have hs' : (h.run t more).Sound := hs.run more
  rw [← History.run_engine] at hp'
  have hactive : (h.run t more).engine.session?.isSome := by
    obtain ⟨s, hs, -⟩ := Option.map_eq_some_iff.1 hp'
    exact Option.isSome_of_eq_some hs
  obtain ⟨r', hr', hext⟩ := hs.extends_run more hlength hactive r hr
  obtain ⟨r'', hr'', htells'⟩ := hs'.exists_tells hp'
  cases hr'.symm.trans hr''
  exact htells.leadsTo htells' hext

/-- The second block of the sample is acknowledged before the first. -/
theorem progress_exact_sample :
    let fresh := Engine.new default ()
    let a := fresh.admission .sample
    let acknowledged := fun i => Operation.complete (a.completion i) (some .continued)
    let state := Engine.after .sink [.start .sample, acknowledged 1] fresh ()
    let h := (History.ofEngine fresh ()).run .sink [.start .sample, acknowledged 1]
    let p : Progress :=
      { token := a.token, totalBlocks := 3, nextToSend := 3, highestAcked := 2, inFlight := 2
        window := 2, totalBytes := 40, ackedBytes := 16 }
    let p' := { p with inFlight := 1, ackedBytes := 32 }
    state.1.progress = some p ∧ (∃ r ∈ h.records.head?, p.Tells r) ∧
      (Engine.after .sink [acknowledged 0] state.1 state.2).1.progress = some p' ∧
      p.LeadsTo p' := by
  intro fresh a acknowledged state h p p'
  have hp : state.1.progress = some p := by decide +kernel
  have hp' : (Engine.after .sink [acknowledged 0] state.1 state.2).1.progress = some p' := by
    decide +kernel
  have hlength : (h.run .sink [acknowledged 0]).records.length = h.records.length := by
    decide +kernel
  obtain ⟨htells, hleads⟩ := progress_exact .sink (.ofSeed 0) default () ()
    [.start .sample, acknowledged 1] p hp
  exact ⟨hp, htells, hp', hleads [acknowledged 0] p' hp' hlength⟩

end Blockwise
