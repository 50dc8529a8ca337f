import Blockwise.Proofs.Change
/-!
# The tokens of sessions

A source never issues the same token twice in a row.  What this means for sessions
depends on who draws: a token is drawn for every upload that finds the slot free and
the message layer ready, and an upload that is then refused for an argument uses its
token up.

**Which token is whose.**  A `Tally` counts these refusals beside a history.  The
token of a session is the one of the source after as many others as there were
sessions and such refusals before it (`Tally.Sound`).  So one session and the next
have different tokens if no upload was refused for an argument between them
(`neighbouring_tokens`).

**A refusal in between is one token too many.**  The source then compares the token
of the later session with that of the refused upload, and not with that of the
session before: the two sessions may share it (`neighbours_share_token`).
-/

namespace Blockwise

/-! ## The tokens of a source -/

namespace Source

/-- The token that the source issues after `i` others. -/
def token (s : Source) (i : ℕ) : Token := (s.drop i).next.1

theorem drop_add (s : Source) (i j : ℕ) : s.drop (i + j) = (s.drop i).drop j := by
  induction i generalizing s with
  | zero => rw [Nat.zero_add, drop]
  | succ i ih =>
    rw [Nat.add_right_comm]
    exact ih s.next.2

theorem drop_succ (s : Source) (i : ℕ) : s.drop (i + 1) = (s.drop i).next.2 := s.drop_add i 1

theorem token_succ_ne (s : Source) (i : ℕ) : s.token (i + 1) ≠ s.token i := by
  have hne := (s.drop (i + 1)).next_ne_last
  rw [s.drop_succ i, last_next, ne_eq, Option.some.injEq, ← s.drop_succ i] at hne
  exact hne

/-- The tokens of sessions, the latest first, where `refused` says for each how many
uploads had been refused for an argument before it. -/
inductive Issued (s : Source) : (tokens : List Token) → (refused : List ℕ) → Prop
  | none : Issued s [] []
  | next {tokens : List Token} {refused : List ℕ} {n : ℕ} (h : Issued s tokens refused)
      (hle : ∀ m ∈ refused.head?, m ≤ n) :
      Issued s (s.token (tokens.length + n) :: tokens) (n :: refused)

/-- The places that two neighbours have among all tokens. -/
theorem Issued.neighbours {s : Source} {later earlier : List Token} {τ τ' : Token}
    {refused : List ℕ} (h : s.Issued (later ++ τ' :: τ :: earlier) refused) :
    ∃ n n', refused[later.length + 1]? = some n ∧ refused[later.length]? = some n' ∧ n ≤ n' ∧
      τ = s.token (earlier.length + n) ∧ τ' = s.token (earlier.length + 1 + n') := by
  induction later generalizing refused with
  | nil =>
    obtain _ | @⟨_, _, n', h', hle⟩ := h
    obtain _ | @⟨_, _, n, h'', -⟩ := h'
    exact ⟨n, n', rfl, rfl, hle n rfl, rfl, rfl⟩
  | cons τ'' later ih =>
    obtain _ | @⟨_, _, _, h', -⟩ := h
    exact ih h'

end Source

/-! ## Who draws -/

variable {ι σ μ β ε : Type}

/-- The answer says that an argument of the upload is unacceptable. -/
def Answer.refusesArgument (answer : Answer ε) : Bool :=
  match answer.error? with
  | some (.invalidArgument _) => true
  | some _ | none => false

theorem Operation.refusesArgument_answer (op : Operation) (outcome : Option (Outcome ε)) :
    (op.answer outcome).refusesArgument = (Answer.outcome outcome).refusesArgument := by
  rcases outcome with _ | _ | _ <;> cases op <;> rfl

namespace History

/-- What becomes of the source of tokens: one is drawn for an upload that is refused
for an argument, or one for a session, or none. -/
inductive Draw (h h' : History ι σ) : Bool → Prop
  | refused (hsource : h'.engine.source = h.engine.source.next.2)
      (hadmissions : h'.admissions = h.admissions) : Draw h h' true
  | admitted {upload : Upload} (hsource : h'.engine.source = h.engine.source.next.2)
      (hadmissions : h'.admissions = h.engine.admission upload :: h.admissions) : Draw h h' false
  | none (hsource : h'.engine.source = h.engine.source)
      (hadmissions : h'.admissions = h.admissions) : Draw h h' false

variable [Inspector ι] {t : Transport σ μ β ε} {h : History ι σ}

theorem handled_draw (t : Transport σ μ β ε) (h : History ι σ) (event : Event) :
    Draw h (h.handled t event)
      (Answer.outcome
        (Engine.handle t.ledgered event h.engine h.link).result).refusesArgument := by
  have hcourse := Engine.handle_course t.ledgered event h.engine h.link
  unfold History.handled
  generalize Engine.handle t.ledgered event h.engine h.link = r at hcourse ⊢
  dsimp only
  cases hcourse with
  | busy hactive => exact .none rfl (admissions_noted (.inr rfl))
  | disconnected hfree hready => exact .none rfl (admissions_noted (.inr rfl))
  | invalid hfree hready hsession => exact .refused rfl (admissions_noted (.inr rfl))
  | admitted henters hfill hresult => exact .admitted rfl rfl
  | aborted henters hfill hresult => exact .admitted rfl rfl
  | idle hfree => exact .none rfl rfl
  | cancelled hactive => exact .none rfl rfl
  | ignored hcompletion howner =>
    exact .none rfl (admissions_noted (.inl (Event.not_isRequest_of_completion? hcompletion)))
  | overrun howner hlast => exact .none rfl (admissions_noted (.inl rfl))
  | advanced henters hfill hresult => exact .none rfl (admissions_noted (.inl rfl))
  | broken henters hfill hresult => exact .none rfl (admissions_noted (.inl rfl))
  | applied howner => exact .none rfl rfl
  | rejected howner => exact .none rfl rfl
  | timedOut howner => exact .none rfl rfl

theorem step_draw (t : Transport σ μ β ε) (h : History ι σ) (op : Operation) :
    Draw h (h.step t op)
      (Engine.perform t op h.engine h.link.link).result.refusesArgument := by
  rw [result_eq, step_eq, Operation.refusesArgument_answer]
  exact handled_draw t h op.event

end History

/-! ## Counting the refusals -/

/-- A history with a count of the uploads that were refused for an argument. -/
structure Tally (ι σ : Type) where
  history : History ι σ
  /-- How many uploads were refused for an argument. -/
  refused : ℕ := 0
  /-- How many had been so when each session was admitted, the latest session
  first. -/
  before : List ℕ := []

namespace Tally

/-- The tally that begins with this engine and this link. -/
def ofEngine (e : Engine ι) (link : σ) : Tally ι σ where
  history := .ofEngine e link

variable [Inspector ι]

/-- The tally after one more operation. -/
def step (t : Transport σ μ β ε) (x : Tally ι σ) (op : Operation) : Tally ι σ :=
  let answer := (Engine.perform t op x.history.engine x.history.link.link).result
  let history := x.history.step t op
  { history
    refused := if answer.refusesArgument then x.refused + 1 else x.refused
    before :=
      if x.history.admissions.length < history.admissions.length then x.refused :: x.before
      else x.before }

def run (t : Transport σ μ β ε) (ops : List Operation) (x : Tally ι σ) : Tally ι σ :=
  ops.foldl (step t) x

/-- Keeping a tally changes nothing of the history. -/
theorem history_run (t : Transport σ μ β ε) (ops : List Operation) (x : Tally ι σ) :
    (x.run t ops).history = x.history.run t ops := by
  induction ops generalizing x with
  | nil => rfl
  | cons op ops ih => exact ih (x.step t op)

/-- What the tally says is true of the tokens, all of which come from the source
`s`. -/
structure Sound (s : Source) (x : Tally ι σ) : Prop where
  source_eq : x.history.engine.source = s.drop (x.history.admissions.length + x.refused)
  issued : s.Issued (x.history.admissions.map (·.token)) x.before
  head_le : ∀ n ∈ x.before.head?, n ≤ x.refused

namespace Sound

variable {t : Transport σ μ β ε} {x : Tally ι σ} {s : Source}

omit [Inspector ι] in
theorem ofEngine (e : Engine ι) (link : σ) : Sound e.source (Tally.ofEngine e link) where
  source_eq := rfl
  issued := .none
  head_le := by
    rintro n ⟨⟩

theorem step (hx : x.Sound s) (op : Operation) : (x.step t op).Sound s := by
  have hdraw := History.step_draw t x.history op
  unfold Tally.step
  dsimp only
  generalize (Engine.perform t op x.history.engine x.history.link.link).result.refusesArgument =
    refuses at hdraw ⊢
  generalize x.history.step t op = h' at hdraw ⊢
  have hnext : x.history.engine.source.next.2 =
      s.drop (x.history.admissions.length + x.refused + 1) := by
    rw [Source.drop_succ, hx.source_eq]
  cases hdraw with
  | refused hsource hadmissions =>
    rw [hadmissions, if_pos rfl, if_neg (Nat.lt_irrefl _)]
    refine ⟨?_, ?_, fun n hn => Nat.le_succ_of_le (hx.head_le n hn)⟩
    · rw [hsource, hnext, hadmissions]
      rfl
    · rw [hadmissions]
      exact hx.issued
  | @admitted upload hsource hadmissions =>
    rw [hadmissions, if_neg Bool.false_ne_true, List.length_cons, if_pos (Nat.lt_succ_self _)]
    refine ⟨?_, ?_, ?_⟩
    · rw [hsource, hnext, hadmissions, List.length_cons, Nat.add_right_comm]
    · -- The token of the session is the one that the source issues next.
      have htoken : (x.history.engine.admission upload).token =
          s.token ((x.history.admissions.map (·.token)).length + x.refused) := by
        rw [List.length_map]
        show x.history.engine.source.next.1 = _
        rw [hx.source_eq]
        rfl
      rw [hadmissions, List.map_cons, htoken]
      exact .next hx.issued hx.head_le
    · rintro n ⟨⟩
      exact Nat.le_refl _
  | none hsource hadmissions =>
    rw [hadmissions, if_neg Bool.false_ne_true, if_neg (Nat.lt_irrefl _)]
    refine ⟨?_, ?_, hx.head_le⟩
    · rw [hsource, hx.source_eq, hadmissions]
    · rw [hadmissions]
      exact hx.issued

/-- What the tally says is true throughout a run. -/
theorem run (hx : x.Sound s) (ops : List Operation) : (x.run t ops).Sound s := by
  induction ops generalizing x with
  | nil => exact hx
  | cons op ops ih => exact ih (hx.step op)

end Sound

end Tally

theorem Record.Sound.token_of_mem {r : Record} (hr : r.Sound) {p : Parcel} (hp : p ∈ r.sent) :
    p.token = r.admission.token := by
  obtain ⟨i, -, rfl⟩ := hr.mem_sent_iff.1 hp
  rfl

/-- **The tokens of neighbouring sessions.**  Let session `A` be admitted in a run, and
session `B` be the next, and let `n` and `n'` uploads have been refused for an argument
before the one and before the other.  All messages of a session bear one token of the
source: those of `A` the one after as many others as there were sessions and refusals
before `A`, and those of `B` likewise.  If no upload was refused for an argument between
the two, no message of `B` bears the token of a message of `A`. -/
theorem neighbouring_tokens [Inspector ι] (t : Transport σ μ β ε) (stream : WordStream)
    (config : Config) (inspector : ι) (link : σ) (ops : List Operation) :
    let source := Source.ofStream stream
    let x := (Tally.ofEngine (Engine.ofStream stream config inspector) link).run t ops
    ∀ later A B earlier, x.history.records = later ++ B :: A :: earlier →
      ∃ n n', x.before[later.length + 1]? = some n ∧ x.before[later.length]? = some n' ∧ n ≤ n' ∧
        (∀ p ∈ A.sent, p.token = source.token (earlier.length + n)) ∧
        (∀ q ∈ B.sent, q.token = source.token (earlier.length + 1 + n')) ∧
        (n = n' → ∀ p ∈ A.sent, ∀ q ∈ B.sent, q.token ≠ p.token) := by
  intro source x later A B earlier hrecords
  have hs : x.history.Sound := by
    rw [Tally.history_run]
    exact (History.Sound.ofEngine rfl).run ops
  have hx : x.Sound source :=
    (Tally.Sound.ofEngine (Engine.ofStream stream config inspector) link).run ops
  have hissued := hx.issued
  unfold History.admissions at hissued
  rw [hrecords] at hissued
  simp only [List.map_append, List.map_cons] at hissued
  obtain ⟨n, n', hn, hn', hle, hA, hB⟩ := hissued.neighbours
  simp only [List.length_map] at hn hn' hA hB
  have hsentA : ∀ p ∈ A.sent, p.token = source.token (earlier.length + n) := by
    intro p hp
    rw [(hs.record_sound A (by rw [hrecords]; simp)).1.token_of_mem hp, hA]
  have hsentB : ∀ q ∈ B.sent, q.token = source.token (earlier.length + 1 + n') := by
    intro q hq
    rw [(hs.record_sound B (by rw [hrecords]; simp)).1.token_of_mem hq, hB]
  refine ⟨n, n', hn, hn', hle, hsentA, hsentB, ?_⟩
  rintro rfl p hp q hq
  rw [hsentA p hp, hsentB q hq, Nat.add_right_comm]
  exact source.token_succ_ne _

/-- A request that is refused for its body. -/
def Operation.startEmpty : Operation := .startUpload "fw" .empty .octetStream

/-- An upload is refused for its body, then the sample is started, given up and started
again. -/
theorem neighbouring_tokens_sample :
    let x := (Tally.ofEngine (Engine.new default ()) ()).run .sink
      [.startEmpty, .start .sample, .cancel, .start .sample]
    ∃ A B, x.history.records = [] ++ B :: A :: [] ∧ x.before = [1, 1] ∧
      A.sent.length = 2 ∧ B.sent.length = 2 ∧
      ∀ p ∈ A.sent, ∀ q ∈ B.sent, q.token ≠ p.token := by
  intro x
  have hsent : x.history.records.map (·.sent.length) = [2, 2] := by decide +kernel
  have hbefore : x.before = [1, 1] := by decide +kernel
  obtain ⟨A, B, hrecords, hB, hA⟩ := Record.exists_pair_of_map hsent
  obtain ⟨n, n', hn, hn', -, -, -, hne⟩ :=
    neighbouring_tokens .sink (.ofSeed 0) default () () _ [] A B [] hrecords
  have hsame : n = n' := by
    change x.before[1]? = some n at hn
    change x.before[0]? = some n' at hn'
    rw [hbefore] at hn hn'
    exact Option.some.inj (hn.symm.trans hn')
  exact ⟨A, B, hrecords, hbefore, hA, hB, hne hsame⟩

/-- **Neighbours may share a token.**  For this seed the first word of the stream comes
again as the third.  An upload that is refused for its body draws the second, and so the
sample has the same token when it is started for the second time, right after the
first. -/
theorem neighbours_share_token :
    let h := (History.ofEngine (Engine.new { seed := 6587901063 } ()) ()).run .sink
      [.start .sample, .cancel, .startEmpty, .start .sample]
    ∃ A B, h.records = [] ++ B :: A :: [] ∧ ∃ p ∈ A.sent, ∃ q ∈ B.sent, q.token = p.token := by
  intro h
  have htokens : h.records.map (·.sent.head?.map (·.token)) =
      [some (Token.ofWord 0x7d75d84b), some (Token.ofWord 0x7d75d84b)] := by decide +kernel
  obtain ⟨A, B, hrecords, hB, hA⟩ := Record.exists_pair_of_map htokens
  obtain ⟨q, hq, hqtoken⟩ := Option.map_eq_some_iff.1 hB
  obtain ⟨p, hp, hptoken⟩ := Option.map_eq_some_iff.1 hA
  exact ⟨A, B, hrecords, p, List.mem_of_mem_head? hp, q, List.mem_of_mem_head? hq,
    hqtoken.trans hptoken.symm⟩

end Blockwise
