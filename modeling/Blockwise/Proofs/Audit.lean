import Blockwise.Proofs.Change
/-!
# Which completions have an effect

A completion may be reported when its session is over, or again, or may never
have been issued.  Whether it has an effect is a question of the run so far, and
can be answered without a look at the window: it has one if it bears the token
and the generation of the active session, names a block that was sent for it, and
is the first to do so.

An `Audit` is a history with a list of the completions that had an effect,
written by this rule (`Audit.Effective`).  The rule is right: an engine acts on
the effective completions and on no others (`Audit.Sound.effective_iff`).  As the
list never holds the same block of the same session twice, it is short
(`Audit.Sound.countP_effects_le`).
-/

namespace Blockwise

variable {ι σ μ β ε : Type}

/-- A history with the completions that had an effect. -/
structure Audit (ι σ : Type) where
  history : History ι σ
  /-- The completions that had an effect, in order: for each how many sessions were
  admitted before its own, and its block. -/
  effects : List (ℕ × UInt32) := []

namespace Audit

/-- The audit that begins with this engine and this link. -/
def ofEngine (e : Engine ι) (link : σ) : Audit ι σ where
  history := .ofEngine e link

/-- How many sessions were admitted before the latest. -/
def earlier (x : Audit ι σ) : ℕ := x.history.records.tail.length

/-- The completion bears the token and the generation of the active session, and
names a block that was sent for it and that no effective completion has named so
far. -/
def Effective (x : Audit ι σ) (c : Completion) : Prop :=
  (∃ s ∈ x.history.engine.session?, c.token = s.token ∧ c.generation = s.generation) ∧
    (∃ r ∈ x.history.records.head?, ∃ p ∈ r.sent, p.completion.num = c.num) ∧
    (x.earlier, c.num) ∉ x.effects

instance (x : Audit ι σ) (c : Completion) : Decidable (x.Effective c) := by
  unfold Effective
  infer_instance

/-- The event reports a completion that is not effective. -/
def Stale (x : Audit ι σ) (event : Event) : Prop :=
  ∃ c ∈ event.completion?, ¬ x.Effective c

instance (x : Audit ι σ) (event : Event) : Decidable (x.Stale event) := by
  unfold Stale
  infer_instance

variable [Inspector ι]

/-- The audit after one more operation. -/
def step (t : Transport σ μ β ε) (x : Audit ι σ) (op : Operation) : Audit ι σ where
  history := x.history.step t op
  effects :=
    match op.event.completion? with
    | none => x.effects
    | some c => if x.Effective c then x.effects ++ [(x.earlier, c.num)] else x.effects

def run (t : Transport σ μ β ε) (ops : List Operation) (x : Audit ι σ) : Audit ι σ :=
  ops.foldl (step t) x

/-- Keeping an audit changes nothing of the history. -/
theorem history_run (t : Transport σ μ β ε) (ops : List Operation) (x : Audit ι σ) :
    (x.run t ops).history = x.history.run t ops := by
  induction ops generalizing x with
  | nil => rfl
  | cons op ops ih => exact ih (x.step t op)

theorem run_append (t : Transport σ μ β ε) (ops ops' : List Operation) (x : Audit ι σ) :
    x.run t (ops ++ ops') = (x.run t ops).run t ops' := List.foldl_append

variable {t : Transport σ μ β ε} {x : Audit ι σ} {op : Operation} {c : Completion}

/-! ## The list grows by the effective completions -/

theorem effects_step_of_effective (hcompletion : op.event.completion? = some c)
    (heffective : x.Effective c) : (x.step t op).effects = x.effects ++ [(x.earlier, c.num)] := by
  unfold step
  rw [hcompletion]
  exact if_pos heffective

theorem effects_step_of_stale (hstale : x.Stale op.event) :
    (x.step t op).effects = x.effects := by
  obtain ⟨c, hcompletion, heffective⟩ := hstale
  unfold step
  rw [hcompletion]
  exact if_neg heffective

theorem effects_step_of_none (hcompletion : op.event.completion? = none) :
    (x.step t op).effects = x.effects := by
  unfold step
  rw [hcompletion]

/-- An operation adds its completion if that is effective, and nothing else. -/
theorem effects_step_cases (t : Transport σ μ β ε) (x : Audit ι σ) (op : Operation) :
    (x.step t op).effects = x.effects ∨ ∃ c, op.event.completion? = some c ∧ x.Effective c ∧
      (x.step t op).effects = x.effects ++ [(x.earlier, c.num)] := by
  cases hcompletion : op.event.completion? with
  | none => exact .inl (effects_step_of_none hcompletion)
  | some c =>
    by_cases heffective : x.Effective c
    · exact .inr ⟨c, rfl, heffective, effects_step_of_effective hcompletion heffective⟩
    · exact .inl (effects_step_of_stale ⟨c, hcompletion, heffective⟩)

theorem effects_subset_run (t : Transport σ μ β ε) (ops : List Operation) (x : Audit ι σ) :
    x.effects ⊆ (x.run t ops).effects := by
  induction ops generalizing x with
  | nil => exact List.Subset.refl _
  | cons op ops ih =>
    refine List.Subset.trans ?_ (ih (x.step t op))
    rcases effects_step_cases t x op with hsame | ⟨c, -, -, hnew⟩
    · rw [hsame]
      exact List.Subset.refl _
    · rw [hnew]
      exact List.subset_append_left _ _

end Audit

/-! ## What the list says -/

/-- The blocks that were sent are those whose numbers are below their count. -/
theorem Record.Sound.exists_num_iff {r : Record} (hr : r.Sound) {num : UInt32} :
    (∃ p ∈ r.sent, p.completion.num = num) ↔ num.toNat < r.sent.length := by
  constructor
  · rintro ⟨p, hp, rfl⟩
    obtain ⟨i, hi, rfl⟩ := hr.mem_sent_iff.1 hp
    rw [hr.toNat_num hi]
    exact hi
  · intro hlt
    exact ⟨r.admission.parcel num.toNat, hr.mem_sent_iff.2 ⟨_, hlt, rfl⟩, UInt32.ofNat_toNat⟩

namespace Audit

/-- What the list says is true of the history. -/
structure Sound (x : Audit ι σ) : Prop where
  history : x.history.Sound
  nodup : x.effects.Nodup
  /-- Every entry is about a block of a session that was admitted. -/
  exists_admission : ∀ p ∈ x.effects,
    ∃ a, x.history.admissions.reverse[p.1]? = some a ∧ p.2.toNat < a.total
  /-- As long as a session is active, the effective completions were those that
  acknowledged its blocks. -/
  acked_iff : ∀ s, x.history.engine.session? = some s → ∀ r ∈ x.history.records.head?,
    ∀ num, (x.earlier, num) ∈ x.effects ↔ num.toNat ∈ r.acked

namespace Sound

variable {x : Audit ι σ} {c : Completion}

theorem ofEngine {e : Engine ι} (hfree : e.session? = none) (link : σ) :
    (Audit.ofEngine e link).Sound where
  history := .ofEngine hfree
  nodup := List.nodup_nil
  exists_admission := by
    rintro p ⟨⟩
  acked_iff := by
    intro s hactive
    cases hfree.symm.trans hactive

/-- An engine acts on the effective completions, and on no others. -/
theorem effective_iff (hx : x.Sound) :
    x.Effective c ↔ ∃ s, x.history.engine.owner? c = some s := by
  constructor
  · rintro ⟨⟨s, hactive, htoken, hgeneration⟩, ⟨r, hhead, hsent⟩, hnew⟩
    obtain ⟨r', rest, hrecords, hdrives⟩ := hx.history.drives hactive
    obtain rfl : r' = r := by
      rw [hrecords] at hhead
      exact Option.some.inj hhead
    have hsound := (hx.history.cons_sound hrecords).1.1
    rw [hdrives.runs.session_eq] at htoken hgeneration
    refine ⟨s, Engine.owner?_eq_some_iff.2 ⟨hactive, hdrives.owns_iff.2 ?_⟩⟩
    exact ⟨htoken, hgeneration, hsound.exists_num_iff.1 hsent,
      fun hacked => hnew ((hx.acked_iff s hactive r' hhead c.num).2 hacked)⟩
  · rintro ⟨s, howner⟩
    obtain ⟨hactive, howns⟩ := Engine.owner?_eq_some_iff.1 howner
    obtain ⟨r, rest, hrecords, hdrives⟩ := hx.history.drives hactive
    have hhead : r ∈ x.history.records.head? := by rw [hrecords]; rfl
    have hsound := (hx.history.cons_sound hrecords).1.1
    obtain ⟨-, -, hlt, hacked⟩ := hdrives.owns_iff.1 howns
    exact ⟨⟨s, hactive, howns.1, howns.2.1⟩, ⟨r, hhead, hsound.exists_num_iff.2 hlt⟩,
      fun hmem => hacked ((hx.acked_iff s hactive r hhead c.num).1 hmem)⟩

/-- An effective completion is about a block of the latest session, and bears its
generation. -/
theorem exists_admission_of_effective (hx : x.Sound) (h : x.Effective c) :
    ∃ a, x.history.admissions.reverse[x.earlier]? = some a ∧ c.generation = a.generation ∧
      c.num.toNat < a.total := by
  obtain ⟨s, howner⟩ := hx.effective_iff.1 h
  obtain ⟨hactive, howns⟩ := Engine.owner?_eq_some_iff.1 howner
  obtain ⟨r, rest, hrecords, hdrives⟩ := hx.history.drives hactive
  obtain ⟨-, hgeneration, -⟩ := hdrives.owns_iff.1 howns
  refine ⟨r.admission, ?_, hgeneration, ?_⟩
  · unfold History.admissions earlier
    rw [hrecords, List.map_cons, List.reverse_cons, List.tail_cons]
    have hlength : rest.length = (rest.map Record.admission).reverse.length := by
      rw [List.length_reverse, List.length_map]
    rw [hlength]
    exact List.getElem?_concat_length
  · exact (hdrives.runs.tracks.mem_inFlight_iff.1 howns.2.2).1.trans_le hdrives.runs.next_le

variable [Inspector ι] {t : Transport σ μ β ε} {op : Operation}

theorem nodup_step (hx : x.Sound) : (x.step t op).effects.Nodup := by
  rcases effects_step_cases t x op with hsame | ⟨c, -, ⟨-, -, hnew⟩, heffects⟩
  · rw [hsame]
    exact hx.nodup
  · rw [heffects, ← List.concat_eq_append, List.nodup_concat]
    exact ⟨hnew, hx.nodup⟩

theorem exists_admission_step (hx : x.Sound) : ∀ p ∈ (x.step t op).effects,
    ∃ a, (x.step t op).history.admissions.reverse[p.1]? = some a ∧ p.2.toNat < a.total := by
  obtain ⟨outcome, -, hchange⟩ := hx.history.step_change (t := t) op
  have hprefix := List.reverse_prefix.2 hchange.admissions_suffix
  -- Sessions keep their places.
  have hkept : ∀ {k : ℕ} {a : Admission}, x.history.admissions.reverse[k]? = some a →
      (x.step t op).history.admissions.reverse[k]? = some a := by
    intro k a hk
    obtain ⟨hlt, rfl⟩ := List.getElem?_eq_some_iff.1 hk
    exact List.prefix_iff_getElem?.1 hprefix k hlt
  intro p hp
  rcases effects_step_cases t x op with hsame | ⟨c, -, heffective, heffects⟩
  · rw [hsame] at hp
    obtain ⟨a, ha, hlt⟩ := hx.exists_admission p hp
    exact ⟨a, hkept ha, hlt⟩
  · rw [heffects] at hp
    rcases List.mem_append.1 hp with hp | hp
    · obtain ⟨a, ha, hlt⟩ := hx.exists_admission p hp
      exact ⟨a, hkept ha, hlt⟩
    · obtain rfl := List.mem_singleton.1 hp
      obtain ⟨a, ha, -, hlt⟩ := hx.exists_admission_of_effective heffective
      exact ⟨a, hkept ha, hlt⟩

omit [Inspector ι] in
/-- No entry is about a session that was not admitted yet. -/
theorem lt_of_mem (hx : x.Sound) {p : ℕ × UInt32} (hp : p ∈ x.effects) :
    p.1 < x.history.records.length := by
  obtain ⟨a, ha, -⟩ := hx.exists_admission p hp
  obtain ⟨hlt, -⟩ := List.getElem?_eq_some_iff.1 ha
  unfold History.admissions at hlt
  rwa [List.length_reverse, List.length_map] at hlt

/-- An event that reports no completion of the active session adds nothing. -/
theorem effects_step_of_owner?_none (hx : x.Sound)
    (howner : ∀ c, op.event.completion? = some c → x.history.engine.owner? c = none) :
    (x.step t op).effects = x.effects := by
  rcases effects_step_cases t x op with hsame | ⟨c, hcompletion, heffective, -⟩
  · exact hsame
  · obtain ⟨s, howner'⟩ := hx.effective_iff.1 heffective
    cases (howner c hcompletion).symm.trans howner'

theorem acked_iff_step (hx : x.Sound) : ∀ s, (x.step t op).history.engine.session? = some s →
    ∀ r ∈ (x.step t op).history.records.head?,
      ∀ num, ((x.step t op).earlier, num) ∈ (x.step t op).effects ↔ num.toNat ∈ r.acked := by
  obtain ⟨outcome, -, hchange⟩ := hx.history.step_change (t := t) op
  have hkept : (∀ c, op.event.completion? = some c → x.history.engine.owner? c = none) →
      (x.step t op).effects = x.effects := hx.effects_step_of_owner?_none
  show ∀ s, (x.history.step t op).engine.session? = some s →
    ∀ r ∈ (x.history.step t op).records.head?, ∀ num,
      ((x.history.step t op).records.tail.length, num) ∈ (x.step t op).effects ↔ _
  generalize x.history.step t op = h' at hchange ⊢
  generalize hevent : op.event = event at hchange hkept
  intro s hactive r hr num
  cases hchange with
  | refused hadmission hsession hgeneration htaken hrecords =>
    rw [hsession] at hactive
    rw [hrecords] at hr ⊢
    rw [hkept (by rintro c ⟨⟩)]
    exact hx.acked_iff s hactive r hr num
  | kept hrequest howner =>
    rw [hkept howner]
    exact hx.acked_iff s hactive r hr num
  | admitted hfree hsession hgeneration hrecords =>
    rw [hrecords] at hr ⊢
    obtain rfl := Option.some.inj hr
    rw [hkept (by rintro c ⟨⟩)]
    -- The new session comes after all that the list knows of.
    refine ⟨fun hmem => absurd (hx.lt_of_mem hmem) (Nat.lt_irrefl _), ?_⟩
    rintro ⟨⟩
  | aborted hfree hsession hgeneration hrecords hnews => cases hsession.symm.trans hactive
  | @advanced c s₀ s' r₀ rest news h' howner hsession hgeneration hrecords hrecords' =>
    have hiff := hx.acked_iff s₀ (Engine.owner?_eq_some_iff.1 howner).1 r₀
      (by rw [hrecords]; rfl) num
    have heffects : (x.step t op).effects = x.effects ++ [(x.earlier, c.num)] :=
      effects_step_of_effective (by rw [hevent]; rfl) (hx.effective_iff.2 ⟨s₀, howner⟩)
    rw [hrecords'] at hr ⊢
    obtain rfl := Option.some.inj hr
    have hearlier : x.earlier = rest.length := by
      unfold earlier
      rw [hrecords, List.tail_cons]
    rw [hearlier] at hiff heffects
    rw [heffects, List.tail_cons, List.mem_append, hiff, List.mem_singleton, Prod.mk.injEq,
      Finset.mem_insert, UInt32.toNat_inj]
    tauto
  | completed howner hsession hgeneration htaken hrecords => cases hsession.symm.trans hactive
  | failed hrequest hactive' howner hsession hgeneration hrecords hrecords' =>
    cases hsession.symm.trans hactive

theorem step (hx : x.Sound) (op : Operation) : (x.step t op).Sound where
  history := hx.history.step op
  nodup := hx.nodup_step
  exists_admission := hx.exists_admission_step
  acked_iff := hx.acked_iff_step

/-- What the list says is true throughout a run. -/
theorem run (hx : x.Sound) (ops : List Operation) : (x.run t ops).Sound := by
  induction ops generalizing x with
  | nil => exact hx
  | cons op ops ih => exact ih (hx.step op)

omit [Inspector ι] in
/-- In a session no more completions have an effect than it has blocks. -/
theorem countP_effects_le (hx : x.Sound) {k : ℕ} {a : Admission}
    (ha : x.history.admissions.reverse[k]? = some a) :
    x.effects.countP (·.1 = k) ≤ a.total := by
  rw [List.countP_eq_length_filter]
  -- The numbers of these blocks are distinct, and below the number of blocks.
  have hnums : ((x.effects.filter (·.1 = k)).map (·.2.toNat)).Nodup := by
    refine List.Nodup.map_on ?_ (hx.nodup.filter _)
    rintro ⟨k₁, num₁⟩ h₁ ⟨k₂, num₂⟩ h₂ heq
    obtain rfl : k₁ = k := by simpa using (List.mem_filter.1 h₁).2
    obtain rfl : k₂ = k₁ := by simpa using (List.mem_filter.1 h₂).2
    exact Prod.ext rfl (UInt32.toNat_inj.1 heq)
  have hsubset : (x.effects.filter (·.1 = k)).map (·.2.toNat) ⊆ List.range a.total := by
    intro i hi
    obtain ⟨p, hp, rfl⟩ := List.mem_map.1 hi
    obtain ⟨hmem, hk⟩ := List.mem_filter.1 hp
    obtain ⟨a', ha', hlt⟩ := hx.exists_admission p hmem
    rw [of_decide_eq_true hk, ha] at ha'
    obtain rfl := Option.some.inj ha'
    exact List.mem_range.2 hlt
  simpa using (hnums.subperm hsubset).length_le

end Sound

end Audit

end Blockwise
