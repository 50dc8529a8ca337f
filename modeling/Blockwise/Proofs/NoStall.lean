import Blockwise.Proofs.Stale
/-!
# No session stalls

An engine moves only when something is reported to it.  A session of which
nothing is out would wait for ever, and keep the slot.

**Something is always out** (`Admission.Runs.size_inFlight_pos`).  The filling
loop stops for a full window or for a body that is used up.  A full window holds
a block, and of a body that is used up the last block is out, for an
acknowledgement of that one ends the session.

**Every step counts** (`History.Sound.step_of_active`).  A completion that the
engine acts on ends the session, or leaves one block fewer to be acknowledged.
So a session acts on no more completions than it has blocks, and comes to an end
if every message that was taken is reported some day
(`Endless.exists_ends`).
-/

namespace Blockwise

variable {ι σ μ β ε : Type}

/-! ## What is out -/

/-- A session that waits, waits for some block. -/
theorem Admission.Runs.exists_mem_inFlight {a : Admission} {acked : Finset ℕ} {s : Session}
    (h : a.Runs acked s) (hrest : ¬ s.window.CanSend) : ∃ num, num ∈ s.window.inFlight := by
  have hpos := h.size_inFlight_pos hrest
  by_contra! hnone
  rw [Std.ExtTreeMap.eq_empty_iff_forall_not_mem.2 hnone, Std.ExtTreeMap.size_empty] at hpos
  cases hpos

/-- With all blocks sent the last one is out. -/
theorem Admission.Runs.last_mem_inFlight {a : Admission} {acked : Finset ℕ} {s : Session}
    (h : a.Runs acked s) (hall : s.window.AllSent) :
    s.window.total - 1 ∈ s.window.inFlight := by
  have hpos := h.highest_lt_total
  have hone : (1 : UInt32) ≤ s.window.total := UInt32.le_iff_toNat_le.2 (by simp; omega)
  have hlast : (s.window.total - 1).toNat = s.window.total.toNat - 1 :=
    UInt32.toNat_sub_of_le _ _ hone
  refine h.tracks.mem_inFlight_of_highest_le ?_ ?_
  · omega
  · rw [hall, hlast]
    omega

/-- How many blocks of the session were not acknowledged. -/
def Record.remaining (r : Record) : ℕ := r.admission.total - r.acked.card

theorem Record.Drives.remaining_pos {r : Record} {s : Session} (h : r.Drives s) :
    1 ≤ r.remaining := by
  have hlt := h.runs.card_lt_total
  unfold remaining
  omega

/-- A block that is out and is acknowledged was one of those that remained. -/
theorem Record.Drives.remaining_acknowledge {r : Record} {s : Session} {c : Completion}
    (h : r.Drives s) (howns : s.Owns c) (news : List Parcel) :
    { r with sent := r.sent ++ news, acked := insert c.num.toNat r.acked : Record }.remaining + 1
      = r.remaining := by
  obtain ⟨-, -, -, hacked⟩ := h.owns_iff.1 howns
  have hlt := h.runs.card_lt_total
  unfold remaining
  dsimp only
  rw [Finset.card_insert_of_notMem hacked]
  omega

/-! ## Steps -/

namespace History

open Engine

variable [Inspector ι] {t : Transport σ μ β ε} {h : History ι σ} {s : Session} {r : Record}
  {rest : List Record}

/-- Where a session is active, an operation ends it, or is of no concern to it, or
reports that one of its blocks was acknowledged. -/
theorem Sound.step_of_active (hs : h.Sound) (hactive : h.engine.session? = some s)
    (hrecords : h.records = r :: rest) (op : Operation) :
    let answer := (perform t op h.engine h.link.link).result
    (answer.ends = true ∧ (h.step t op).engine.session? = none) ∨
    ((∀ c, op.event.completion? = some c → h.engine.owner? c = none) ∧
      (h.step t op).engine.session? = some s ∧ (h.step t op).records = r :: rest) ∨
    ∃ c s' news, op.event.completion? = some c ∧ h.engine.owner? c = some s ∧
      answer = .outcome none ∧ (h.step t op).engine.session? = some s' ∧
      (h.step t op).records =
        { r with sent := r.sent ++ news, acked := insert c.num.toNat r.acked } :: rest := by
  intro answer
  obtain ⟨outcome, hanswer, hchange⟩ := hs.step_change (t := t) op
  rw [result_perform] at hanswer
  change answer = _ at hanswer
  generalize h.step t op = h' at hchange ⊢
  generalize hevent : op.event = event at hchange
  cases hchange with
  | refused _ hsession _ _ hrecords' =>
    refine .inr (.inl ⟨?_, hsession.trans hactive, hrecords'.trans hrecords⟩)
    rintro c ⟨⟩
  | kept hrequest howner => exact .inr (.inl ⟨howner, hactive, hrecords⟩)
  | admitted hfree => cases hfree.symm.trans hactive
  | aborted hfree => cases hfree.symm.trans hactive
  | advanced howner hsession _ hrecords₀ hrecords' =>
    cases hactive.symm.trans (owner?_eq_some_iff.1 howner).1
    cases hrecords.symm.trans hrecords₀
    rw [Operation.answer_of_not_request (by rw [hevent]; rfl)] at hanswer
    exact .inr (.inr ⟨_, _, _, rfl, howner, hanswer, hsession, hrecords'⟩)
  | completed howner hsession =>
    rw [Operation.answer_of_not_request (by rw [hevent]; rfl)] at hanswer
    exact .inl ⟨by rw [hanswer]; rfl, hsession⟩
  | failed hrequest _ _ hsession =>
    rw [Operation.answer_of_not_request (by rw [hevent]; exact hrequest)] at hanswer
    exact .inl ⟨by rw [hanswer]; rfl, hsession⟩

/-- Where the active session owns a completion, the report of it ends the session, or
is met with silence and leaves one block fewer. -/
theorem Sound.step_of_owner (hs : h.Sound) (hrecords : h.records = r :: rest) {op : Operation}
    {c : Completion} (hcompletion : op.event.completion? = some c)
    (howner : h.engine.owner? c = some s) :
    let answer := (perform t op h.engine h.link.link).result
    (answer.ends = true ∧ (h.step t op).engine.session? = none) ∨
    (answer = .outcome none ∧ (h.step t op).engine.session?.isSome ∧
      ∃ r' ∈ (h.step t op).records.head?, r'.admission = r.admission ∧
        r'.remaining + 1 = r.remaining) := by
  intro answer
  obtain ⟨hactive, howns⟩ := owner?_eq_some_iff.1 howner
  have hdrives := hs.drives_of_records hactive hrecords
  rcases hs.step_of_active (t := t) hactive hrecords op with
    hends | ⟨hnone, -, -⟩ | ⟨c', s', news, hcompletion', -, hanswer, hactive', hrecords'⟩
  · exact .inl hends
  · cases howner.symm.trans (hnone c hcompletion)
  · cases hcompletion.symm.trans hcompletion'
    rw [hrecords', hactive']
    exact .inr ⟨hanswer, rfl, _, rfl, rfl, hdrives.remaining_acknowledge howns news⟩

/-- A session that does not end goes on, and what the operation reports of it is
acknowledged. -/
theorem Sound.goes_on (hs : h.Sound) (hactive : h.engine.session? = some s)
    (hrecords : h.records = r :: rest) {op : Operation}
    (hends : (perform t op h.engine h.link.link).result.ends = false) :
    ∃ s' r', (h.step t op).engine.session? = some s' ∧ (h.step t op).records = r' :: rest ∧
      r'.admission = r.admission ∧ r.acked ⊆ r'.acked ∧
      ∀ c, op.event.completion? = some c → r.Awaits c → c.num.toNat ∈ r'.acked := by
  have hdrives := hs.drives_of_records hactive hrecords
  rcases hs.step_of_active (t := t) hactive hrecords op with
    ⟨hends', -⟩ | ⟨howner, hactive', hrecords'⟩ |
      ⟨c, s', news, hcompletion, -, -, hactive', hrecords'⟩
  · cases hends.symm.trans hends'
  · refine ⟨s, r, hactive', hrecords', rfl, subset_rfl, fun c hcompletion hawaits => ?_⟩
    exact absurd (hdrives.owns_iff.2 hawaits)
      (owner?_eq_none_iff.1 (howner c hcompletion) s hactive)
  · refine ⟨s', _, hactive', hrecords', rfl, Finset.subset_insert _ _, fun c' hcompletion' _ => ?_⟩
    cases hcompletion.symm.trans hcompletion'
    exact Finset.mem_insert_self _ _

end History

/-! ## Counting -/

namespace History

/-- The operation reports a completion that the active session owns. -/
def ActsOn (h : History ι σ) (op : Operation) : Prop :=
  ∃ c ∈ op.event.completion?, (h.engine.owner? c).isSome

instance (h : History ι σ) (op : Operation) : Decidable (h.ActsOn op) := by
  unfold ActsOn
  infer_instance

/-- For every completion of the run that the engine acts on, how many sessions were
admitted before the one that it is for. -/
def acts [Inspector ι] (t : Transport σ μ β ε) : History ι σ → List Operation → List ℕ
  | _, [] => []
  | h, op :: ops =>
    if h.ActsOn op then h.records.tail.length :: acts t (h.step t op) ops
    else acts t (h.step t op) ops

end History

namespace Audit.Sound

variable [Inspector ι] {t : Transport σ μ β ε} {x : Audit ι σ}

/-- The completions that an engine acts on are the effective ones. -/
theorem map_effects_run (hx : x.Sound) (ops : List Operation) :
    (x.run t ops).effects.map Prod.fst = x.effects.map Prod.fst ++ x.history.acts t ops := by
  induction ops generalizing x with
  | nil => exact (List.append_nil _).symm
  | cons op ops ih =>
    show ((x.step t op).run t ops).effects.map Prod.fst = _
    rw [ih (hx.step op), History.acts]
    by_cases hacts : x.history.ActsOn op
    · rw [if_pos hacts]
      obtain ⟨c, hcompletion, howner⟩ := hacts
      have heffective := hx.effective_iff.2 (Option.isSome_iff_exists.1 howner)
      rw [effects_step_of_effective hcompletion heffective, List.map_append, List.append_assoc]
      rfl
    · have hnone : ∀ c, op.event.completion? = some c → x.history.engine.owner? c = none :=
        fun c hcompletion => Option.not_isSome_iff_eq_none.1 fun howner =>
          hacts ⟨c, hcompletion, howner⟩
      rw [if_neg hacts, hx.effects_step_of_owner?_none hnone]
      rfl

/-- From its beginning on, an engine acts on no more completions for a session than
that has blocks. -/
theorem count_acts_le (hx : x.Sound) (hnew : x.effects = []) (ops : List Operation) {k : ℕ}
    {a : Admission} (ha : (x.history.run t ops).admissions.reverse[k]? = some a) :
    (x.history.acts t ops).count k ≤ a.total := by
  have hy : (x.run t ops).Sound := hx.run ops
  have hmap := hx.map_effects_run (t := t) ops
  rw [hnew, List.map_nil, List.nil_append] at hmap
  rw [← history_run] at ha
  rw [← hmap, List.count, List.countP_map]
  exact (List.countP_mono_left fun p _ hp => by simpa using hp).trans (hy.countP_effects_le ha)

end Audit.Sound

/-! ## Messages and blocks -/

/-- A message that was sent is awaited, unless its block is acknowledged. -/
theorem Record.Sound.awaits_iff {r : Record} (hr : r.Sound) {i : ℕ} {p : Parcel}
    (hp : r.sent[i]? = some p) :
    p.completion.num.toNat = i ∧ (r.Awaits p.completion ↔ i ∉ r.acked) := by
  obtain ⟨hlt, rfl⟩ := hr.getElem?_sent_iff.1 hp
  refine ⟨hr.toNat_num hlt, ?_⟩
  unfold Awaits
  rw [hr.toNat_num hlt]
  exact ⟨fun h => h.2.2.2, fun h => ⟨rfl, rfl, hlt, h⟩⟩

/-! ## Runs without end -/

/-- The states of a run without end. -/
structure Endless [Inspector ι] (t : Transport σ μ β ε) (schedule : ℕ → Operation)
    (x : ℕ → History ι σ) : Prop where
  sound : ∀ n, (x n).Sound
  step : ∀ n, x (n + 1) = (x n).step t (schedule n)

namespace History

/-- Every message that is taken is reported some day, at a time when it has been
taken. -/
def Reported (schedule : ℕ → Operation) (x : ℕ → History ι σ) : Prop :=
  ∀ (n i : ℕ) (p : Parcel), (x n).link.taken[i]? = some p →
    ∃ m, (x m).link.taken[i]? = some p ∧ (schedule m).event.completion? = some p.completion

/-- What was taken for the latest session comes last in the ledger. -/
theorem Sound.getElem?_taken {h : History ι σ} {r : Record} {rest : List Record} (hs : h.Sound)
    (hrecords : h.records = r :: rest) (i : ℕ) :
    h.link.taken[(rest.reverse.flatMap Record.sent).length + i]? = r.sent[i]? := by
  rw [hs.taken_eq, hrecords, Record.flatMap_sent_cons,
    List.getElem?_append_right (Nat.le_add_right _ _), Nat.add_sub_cancel_left]

variable [Inspector ι] {t : Transport σ μ β ε}

/-- The history after the first operations of a run without end. -/
def during (t : Transport σ μ β ε) (schedule : ℕ → Operation) (start : History ι σ) (n : ℕ) :
    History ι σ :=
  start.run t ((List.range n).map schedule)

theorem endless_during {start : History ι σ} (hs : start.Sound) (schedule : ℕ → Operation) :
    Endless t schedule (start.during t schedule) where
  sound n := hs.run _
  step n := by
    unfold during
    rw [List.range_succ, List.map_append, List.map_singleton, run_concat]

end History

namespace Endless

open Engine

variable [Inspector ι] {t : Transport σ μ β ε} {schedule : ℕ → Operation} {x : ℕ → History ι σ}

theorem taken_prefix (hx : Endless t schedule x) {m n : ℕ} (hle : m ≤ n) :
    (x m).link.taken <+: (x n).link.taken := by
  induction n, hle using Nat.le_induction with
  | base => exact List.prefix_rfl
  | succ n hle ih =>
    rw [hx.step]
    exact ih.trans ((hx.sound n).taken_prefix_run [schedule n])

/-- The session that was admitted by operation `n` never ends. -/
structure Lasts (t : Transport σ μ β ε) (schedule : ℕ → Operation) (x : ℕ → History ι σ) (n : ℕ) :
    Prop where
  active : ∀ m, n < m → ∃ s r, (x m).engine.session? = some s ∧ (x m).records = r :: (x n).records
  ends : ∀ m, n < m →
    (perform t (schedule m) (x m).engine (x m).link.link).result.ends = false

variable {n m m' : ℕ} {s : Session} {r r' : Record}

/-- What is acknowledged stays acknowledged. -/
theorem Lasts.acked_subset (h : Lasts t schedule x n) (hx : Endless t schedule x) (hlt : n < m)
    (hle : m ≤ m') (hrecords : (x m).records = r :: (x n).records)
    (hrecords' : (x m').records = r' :: (x n).records) :
    r'.admission = r.admission ∧ r.acked ⊆ r'.acked := by
  induction m', hle using Nat.le_induction generalizing r' with
  | base =>
    cases hrecords.symm.trans hrecords'
    exact ⟨rfl, subset_rfl⟩
  | succ k hle ih =>
    obtain ⟨s₀, r₀, hactive, hrecords₀⟩ := h.active k (hlt.trans_le hle)
    obtain ⟨hadmission, hsubset⟩ := ih hrecords₀
    obtain ⟨_, r₁, -, hrecords₁, hadmission', hsubset', -⟩ :=
      (hx.sound k).goes_on hactive hrecords₀ (h.ends k (hlt.trans_le hle))
    rw [← hx.step] at hrecords₁
    cases hrecords'.symm.trans hrecords₁
    exact ⟨hadmission'.trans hadmission, hsubset.trans hsubset'⟩

/-- A block that is out is acknowledged some day. -/
theorem Lasts.exists_acked (h : Lasts t schedule x n) (hx : Endless t schedule x)
    (hreported : History.Reported schedule x)
    (hactive : (x m).engine.session? = some s) (hrecords : (x m).records = r :: (x n).records)
    {num : UInt32} (hout : num ∈ s.window.inFlight) :
    ∃ m' ≥ m, ∀ r', (x m').records = r' :: (x n).records → num.toNat ∈ r'.acked := by
  have hdrives := (hx.sound m).drives_of_records hactive hrecords
  -- Its message is in the ledger, past all that was taken before the session.
  have hsent : r.sent[num.toNat]? = some (r.admission.parcel num.toNat) := by
    refine ((hx.sound m).cons_sound hrecords).1.1.getElem?_sent_iff.2 ⟨?_, rfl⟩
    rw [hdrives.sent_eq, Admission.length_parcels]
    exact (hdrives.runs.tracks.mem_inFlight_iff.1 hout).1
  rw [← (hx.sound m).getElem?_taken hrecords, ← (hx.sound n).taken_eq] at hsent
  obtain ⟨k, hk, hcompletion⟩ := hreported m _ _ hsent
  have hnk : n < k := by
    by_contra hle
    have hlength := (hx.taken_prefix (Nat.le_of_not_lt hle)).length_le
    obtain ⟨hlt', -⟩ := List.getElem?_eq_some_iff.1 hk
    omega
  -- The session lasts until its report.
  obtain ⟨s₁, r₁, hactive₁, hrecords₁⟩ := h.active k hnk
  rw [(hx.sound n).taken_eq, (hx.sound k).getElem?_taken hrecords₁] at hk
  obtain ⟨hnum, hawaits⟩ := ((hx.sound k).cons_sound hrecords₁).1.1.awaits_iff hk
  obtain ⟨_, r₂, -, hrecords₂, -, hsubset, hacked⟩ :=
    (hx.sound k).goes_on hactive₁ hrecords₁ (h.ends k hnk)
  rw [← hx.step] at hrecords₂
  have hmem : num.toNat ∈ r₂.acked := by
    by_cases hack : num.toNat ∈ r₁.acked
    · exact hsubset hack
    · rw [← hnum]
      exact hacked _ hcompletion (hawaits.2 hack)
  refine ⟨max m (k + 1), le_max_left _ _, fun r' hrecords' => ?_⟩
  exact (h.acked_subset hx (hnk.trans (Nat.lt_succ_self k)) (le_max_right _ _) hrecords₂
    hrecords').2 hmem

/-- More and more blocks are acknowledged. -/
theorem Lasts.exists_card_le (h : Lasts t schedule x n) (hx : Endless t schedule x)
    (hreported : History.Reported schedule x) (k : ℕ) :
    ∃ m > n, ∀ r, (x m).records = r :: (x n).records → k ≤ r.acked.card := by
  induction k with
  | zero => exact ⟨n + 1, Nat.lt_succ_self n, fun r _ => Nat.zero_le _⟩
  | succ k ih =>
    obtain ⟨m, hlt, hcard⟩ := ih
    obtain ⟨s, r, hactive, hrecords⟩ := h.active m hlt
    have hdrives := (hx.sound m).drives_of_records hactive hrecords
    -- Some block is out, and it will be one more.
    obtain ⟨num, hout⟩ := hdrives.runs.exists_mem_inFlight hdrives.rests
    obtain ⟨m', hle, hacked⟩ := h.exists_acked hx hreported hactive hrecords hout
    refine ⟨m', hlt.trans_le hle, fun r' hrecords' => ?_⟩
    obtain ⟨-, hsubset⟩ := h.acked_subset hx hlt hle hrecords hrecords'
    have hnew := (hdrives.runs.tracks.mem_inFlight_iff.1 hout).2
    calc k + 1 ≤ r.acked.card + 1 := Nat.succ_le_succ (hcard r hrecords)
      _ = (insert num.toNat r.acked).card := (Finset.card_insert_of_notMem hnew).symm
      _ ≤ r'.acked.card :=
        Finset.card_le_card (Finset.insert_subset (hacked r' hrecords') hsubset)

/-- If every message is reported some day, no session lasts. -/
theorem not_lasts (hx : Endless t schedule x) (hreported : History.Reported schedule x) :
    ¬ Lasts t schedule x n := by
  intro h
  obtain ⟨s, r, hactive, hrecords⟩ := h.active (n + 1) (Nat.lt_succ_self n)
  obtain ⟨m, hlt, hcard⟩ := h.exists_card_le hx hreported r.admission.total
  obtain ⟨s', r', hactive', hrecords'⟩ := h.active m hlt
  have hdrives := (hx.sound m).drives_of_records hactive' hrecords'
  obtain ⟨hadmission, -⟩ := h.acked_subset hx (Nat.lt_succ_self n) hlt hrecords hrecords'
  have hall := hcard r' hrecords'
  rw [← hadmission] at hall
  exact absurd hall (Nat.not_le.2 hdrives.runs.card_lt_total)

/-- If every message is reported some day, every session that is admitted ends,
and before the next is admitted. -/
theorem exists_ends (hx : Endless t schedule x) (hreported : History.Reported schedule x)
    (hadmits : (perform t (schedule n) (x n).engine (x n).link.link).result.admits (schedule n) =
      true) :
    ∃ m > n, (perform t (schedule m) (x m).engine (x m).link.link).result.ends = true ∧
      (x m).records.length = (x (n + 1)).records.length := by
  by_contra! hnever
  obtain ⟨s, r, hactive, hrecords⟩ := (hx.sound n).admitted_of_admits hadmits
  rw [← hx.step] at hactive hrecords
  have hends : ∀ {m r'}, n < m → (x m).records = r' :: (x n).records →
      (perform t (schedule m) (x m).engine (x m).link.link).result.ends = false := by
    intro m r' hlt hrecords'
    rw [← Bool.not_eq_true]
    intro hends
    refine hnever m hlt hends ?_
    rw [hrecords, hrecords']
    rfl
  have hlasts : ∀ m, n < m →
      ∃ s r, (x m).engine.session? = some s ∧ (x m).records = r :: (x n).records := by
    intro m hlt
    induction m, hlt using Nat.le_induction with
    | base => exact ⟨s, r, hactive, hrecords⟩
    | succ m hlt ih =>
      obtain ⟨s', r', hactive', hrecords'⟩ := ih
      obtain ⟨s'', r'', hactive'', hrecords'', -⟩ :=
        (hx.sound m).goes_on hactive' hrecords' (hends hlt hrecords')
      rw [← hx.step] at hactive'' hrecords''
      exact ⟨s'', r'', hactive'', hrecords''⟩
  refine hx.not_lasts hreported ⟨hlasts, fun m hlt => ?_⟩
  obtain ⟨s', r', -, hrecords'⟩ := hlasts m hlt
  exact hends hlt hrecords'

end Endless

/-- **No stall, and sessions of bounded length.**  In every state between two
operations in which a session is active,

* some block is out, and with all blocks sent the last one is;
* some block remains to be acknowledged;
* a completion that the session owns ends it with an outcome, or is met with silence
  and leaves one block fewer.

So in no run does an engine act on more completions for a session than that has
blocks; and in a run without end, in which every message that is taken is reported
some day, every upload that is admitted comes to its outcome, and before another is
admitted. -/
theorem no_stall [Inspector ι] (t : Transport σ μ β ε) (stream : WordStream) (config : Config)
    (inspector : ι) (link : σ) :
    let fresh := Engine.ofStream stream config inspector
    let start := History.ofEngine fresh link
    (∀ ops,
      let state := Engine.after t ops fresh link
      let h := start.run t ops
      (∀ s, state.1.session? = some s →
        s.window.inFlight ≠ ∅ ∧
        (s.window.AllSent → s.window.total - 1 ∈ s.window.inFlight) ∧
        ∃ r ∈ h.records.head?, s = r.admission.session s.window ∧
          s.window.total.toNat = r.admission.total ∧ 1 ≤ r.remaining ∧
          ∀ op c, op.event.completion? = some c → state.1.owner? c = some s →
            let reaction := Engine.perform t op state.1 state.2
            (reaction.result.ends = true ∧ reaction.engine.session? = none) ∨
            (reaction.result = .outcome none ∧ reaction.engine.session?.isSome ∧
              ∃ r' ∈ (h.step t op).records.head?, r'.admission = r.admission ∧
                r'.remaining + 1 = r.remaining)) ∧
      ∀ k a, h.admissions.reverse[k]? = some a → (start.acts t ops).count k ≤ a.total) ∧
    ∀ schedule : ℕ → Operation,
      let state n := Engine.after t ((List.range n).map schedule) fresh link
      let answer n := (Engine.perform t (schedule n) (state n).1 (state n).2).result
      let x := start.during t schedule
      History.Reported schedule x → ∀ n, (answer n).admits (schedule n) = true →
        ∃ m > n, (answer m).ends = true ∧ (x m).records.length = (x (n + 1)).records.length := by
  intro fresh start
  have hstart : (Audit.ofEngine fresh link).Sound := .ofEngine rfl link
  refine ⟨fun ops => ⟨fun s hactive => ?_, fun k a => hstart.count_acts_le rfl ops⟩, ?_⟩
  · have hs : (start.run t ops).Sound := hstart.history.run ops
    have hstate := History.run_engine t ops start
    change _ = Engine.after t ops fresh link at hstate
    rw [← hstate] at hactive ⊢
    obtain ⟨r, rest, hrecords, hdrives⟩ := hs.drives hactive
    refine ⟨?_, hdrives.runs.last_mem_inFlight, r, by rw [hrecords]; rfl, hdrives.runs.session_eq,
      hdrives.runs.toNat_total, hdrives.remaining_pos, fun op c hcompletion howner => ?_⟩
    · obtain ⟨num, hout⟩ := hdrives.runs.exists_mem_inFlight hdrives.rests
      exact Std.ExtTreeMap.ne_empty_of_mem hout
    · dsimp only
      rw [← (History.step_engine t (start.run t ops) op).1]
      exact hs.step_of_owner hrecords hcompletion howner
  · intro schedule state answer x hreported n hadmits
    have hx : Endless t schedule x := History.endless_during hstart.history schedule
    have hstate : ∀ n, ((x n).engine, (x n).link.link) = state n := fun n =>
      History.run_engine t _ start
    have hanswer : ∀ n, answer n =
        (Engine.perform t (schedule n) (x n).engine (x n).link.link).result := by
      intro n
      show (Engine.perform t (schedule n) (state n).1 (state n).2).result = _
      rw [← hstate]
    rw [hanswer] at hadmits
    obtain ⟨m, hlt, hends, hlength⟩ := hx.exists_ends hreported hadmits
    exact ⟨m, hlt, by rw [hanswer]; exact hends, hlength⟩

/-- The sample is started, and its blocks are reported one after the other, the last
one again and again. -/
theorem no_stall_sample :
    let fresh := Engine.new default ()
    let a := fresh.admission .sample
    let schedule : ℕ → Operation
      | 0 => .start .sample
      | 1 => .complete (a.completion 0) (some .continued)
      | 2 => .complete (a.completion 1) (some .continued)
      | _ => .complete (a.completion 2) (some .changed)
    let state n := Engine.after .sink ((List.range n).map schedule) fresh ()
    let answer n := (Engine.perform .sink (schedule n) (state n).1 (state n).2).result
    History.Reported schedule ((History.ofEngine fresh ()).during .sink schedule) ∧
      (answer 0).admits (schedule 0) = true ∧ ∃ m > 0, (answer m).ends = true := by
  intro fresh a schedule state answer
  have hs : (History.ofEngine fresh ()).Sound := .ofEngine rfl
  have hx := History.endless_during (t := .sink) hs schedule
  set x := (History.ofEngine fresh ()).during .sink schedule
  -- After four operations the session is over, and nothing changes any more.
  have hfree : (x 4).engine.session? = none := by
    rw [← Option.isNone_iff_eq_none]
    decide +kernel
  have hsame : ∀ n, 4 ≤ n → x n = x 4 := by
    intro n hle
    induction n, hle using Nat.le_induction with
    | base => rfl
    | succ n hle ih =>
      obtain ⟨k, rfl⟩ := Nat.exists_eq_add_of_le' hle
      have howner : (x 4).engine.owner? (a.completion 2) = none := by
        rw [Engine.owner?, hfree]
        rfl
      rw [hx.step, ih]
      exact (hx.sound 4).step_of_owner?_none rfl howner
  have hcompletions : (x 4).link.taken.map (·.completion) =
      [a.completion 0, a.completion 1, a.completion 2] := by decide +kernel
  have hlength : ∀ i < 3, i < (x (i + 1)).link.taken.length := by decide +kernel
  have hreported : History.Reported schedule x := by
    intro n i p hp
    -- Block `i` is reported by the operation after it was taken.
    have hgrows : ∀ m, (x m).link.taken <+: (x 4).link.taken := by
      intro m
      rcases Nat.le_total m 4 with hle | hle
      · exact hx.taken_prefix hle
      · rw [hsame m hle]
    have hfour : (x 4).link.taken[i]? = some p := by
      obtain ⟨hlt, rfl⟩ := List.getElem?_eq_some_iff.1 hp
      exact List.prefix_iff_getElem?.1 (hgrows n) i hlt
    have hcompletion := congrArg (Option.map (·.completion)) hfour
    rw [← List.getElem?_map, hcompletions] at hcompletion
    obtain ⟨hi, -⟩ := List.getElem?_eq_some_iff.1 hcompletion
    change i < 3 at hi
    refine ⟨i + 1, ?_, ?_⟩
    · rw [← hfour, List.prefix_iff_getElem?.1 (hgrows (i + 1)) i (hlength i hi)]
      exact List.getElem?_eq_getElem _
    · obtain _ | _ | _ | i := i
      · exact hcompletion
      · exact hcompletion
      · exact hcompletion
      · omega
  have hadmits : (answer 0).admits (schedule 0) = true := by decide +kernel
  obtain ⟨m, hpos, hends, -⟩ :=
    (no_stall .sink (.ofSeed 0) default () ()).2 schedule hreported 0 hadmits
  exact ⟨hreported, hadmits, m, hpos, hends⟩

end Blockwise
