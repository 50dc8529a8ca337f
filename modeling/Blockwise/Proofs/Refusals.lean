import Blockwise.Proofs.Ahead
import Blockwise.Proofs.Calls
import Blockwise.Proofs.Projection
/-!
# Refused requests leave no trace

A request that is refused leaves the engine as it was, and nothing is created or sent.  A
refusal for an argument is the one that shows: it has used a token up
(`Engine.perform_refused`).

**Added to a run.**  Between two operations the message layer goes its own way, and may
gain or lose its connection, so every operation of a run finds a link of its own
(`Encounter`).  Refusals for a running upload or a missing connection may then be added to
a run, or left out of it, and all else stays (`Engine.encounters_filter`).

**Refusals for an argument as well.**  The source of the second run is then ahead of that of
the first, by one token for each of them (`Engine.Added.exists_ahead`), and the runs differ
in the tokens of later sessions.
-/

namespace Blockwise

variable {ι σ μ β ε : Type}

/-- A refusal is an error of admission. -/
theorem Answer.isRefusal_iff {answer : Answer ε} :
    answer.isRefusal = true ↔
      ∃ failure, answer.error? = some failure ∧ failure.isAdmission = true := by
  obtain (_ | _) | (_ | _ | _) := answer <;> simp [isRefusal, error?]

/-- Seen without its record, the recorded transport is the transport itself. -/
theorem Transport.recorded_over (t : Transport σ μ β ε) : t.recorded.Over t Recorded.link where
  ready _ := rfl
  deliver_ok {s b l _} hdeliver := by
    have hrecorded := s.deliver_recorded t b l
    rw [hdeliver] at hrecorded
    exact hrecorded.1
  deliver_error {s b _ l _} hdeliver := by
    have hrecorded := s.deliver_recorded t b l
    rw [hdeliver] at hrecorded
    exact hrecorded.1

/-! ## What a refusal leaves behind -/

/-- The engine after a request that was refused for this reason. -/
def Engine.afterRefusal (e : Engine ι) : UploadError ε → Engine ι
  | .invalidArgument _ => { e with source := e.source.next.2 }
  | .notReady | .transferInProgress | .dispatch _ | .failed _ => e

/-- The link after a request that was refused for this reason: it was asked whether it is
ready, if the slot was free. -/
def Transport.afterRefusal (t : Transport σ μ β ε) (link : σ) : UploadError ε → σ
  | .transferInProgress => link
  | .notReady | .invalidArgument _ | .dispatch _ | .failed _ => (t.ready link).2

namespace Engine

variable [Inspector ι] {t : Transport σ μ β ε} {op : Operation} {e : Engine ι} {link : σ}

theorem perform_refused {failure : UploadError ε}
    (hfailure : (perform t op e link).result.error? = some failure)
    (hadmission : failure.isAdmission = true) :
    (perform t op e link).engine = e.afterRefusal failure ∧
      (perform t op e link).link = t.afterRefusal link failure := by
  rw [perform_eq] at hfailure ⊢
  have hresult := Operation.error?_answer_eq_some_iff.1 hfailure
  clear hfailure
  dsimp only [Reaction.map]
  have hcourse := handle_course t op.event e link
  generalize handle t op.event e link = r at hcourse hresult ⊢
  generalize op.event = event at hcourse
  cases hcourse with
  | busy | disconnected | invalid =>
    cases hresult
    exact ⟨rfl, rfl⟩
  | admitted | idle | ignored | advanced | applied => cases hresult
  | aborted | cancelled | overrun | broken | rejected | timedOut =>
    cases hresult
    cases hadmission

/-- A refusal leaves the engine as it was, but for one token if it is for an argument. -/
theorem engine_of_isRefusal (hrefusal : (perform t op e link).result.isRefusal = true) :
    (perform t op e link).engine =
      { e with source := e.source.drop (perform t op e link).result.refusesArgument.toNat } := by
  obtain ⟨failure, hfailure, hadmission⟩ := Answer.isRefusal_iff.1 hrefusal
  rw [(perform_refused hfailure hadmission).1, Answer.refusesArgument, hfailure]
  cases failure with
  | invalidArgument | notReady | transferInProgress => rfl
  | dispatch | failed => cases hadmission

end Engine

/-! ## Refusals added to a run -/

/-- An operation with the link that it finds. -/
structure Encounter (σ : Type) where
  operation : Operation
  link : σ
  /-- Whether the operation was added to a run. -/
  added : Bool := false

namespace Engine

variable [Inspector ι] {t : Transport σ μ β ε}

/-- Performs operations one after the other, each on the link that it finds. -/
def encounters (t : Transport σ μ β ε) :
    List (Encounter σ) → Engine ι → List (Reaction ι σ (Answer ε))
  | [], _ => []
  | x :: xs, e =>
    let r := perform t x.operation e x.link
    r :: encounters t xs r.engine

/-- The engine after these operations. -/
def encountered (t : Transport σ μ β ε) (xs : List (Encounter σ)) (e : Engine ι) : Engine ι :=
  xs.foldl (fun e x => (perform t x.operation e x.link).engine) e

/-- Without the refusals that were added a run is the same run. -/
theorem encounters_filter (xs : List (Encounter σ)) (e : Engine ι)
    (hidle : ∀ p ∈ xs.zip (encounters t xs e), p.1.added = true →
      p.2.result.error? = some .transferInProgress ∨ p.2.result.error? = some .notReady) :
    ((xs.zip (encounters t xs e)).filter (!·.1.added)).map Prod.snd =
        encounters t (xs.filter (!·.added)) e ∧
      encountered t xs e = encountered t (xs.filter (!·.added)) e := by
  induction xs generalizing e with
  | nil => exact ⟨rfl, rfl⟩
  | cons x xs ih =>
    rw [encounters, List.zip_cons_cons] at hidle ⊢
    obtain ⟨hfirst, hrest⟩ := List.forall_mem_cons.1 hidle
    obtain ⟨hreactions, hengine⟩ := ih _ hrest
    cases hadded : x.added with
    | true =>
      have hkept : (perform t x.operation e x.link).engine = e := by
        obtain hbusy | hready := hfirst hadded
        · exact (perform_refused hbusy rfl).1
        · exact (perform_refused hready rfl).1
      rw [List.filter_cons_of_neg (by simp [hadded]), List.filter_cons_of_neg (by simp [hadded])]
      rw [hkept] at hreactions hengine ⊢
      refine ⟨hreactions, ?_⟩
      rw [← hengine, encountered, List.foldl_cons, hkept]
      rfl
    | false =>
      rw [List.filter_cons_of_pos (by simp [hadded]), List.filter_cons_of_pos (by simp [hadded])]
      refine ⟨?_, hengine⟩
      rw [List.map_cons, hreactions]
      rfl

end Engine

/-! ## Refusals for an argument added to a run -/

namespace Engine

/-- Two runs that began with the engine `e₀`, the second of them with refused requests
added: how many of these were refused for an argument, and the engines that the two runs
have come to.  The links that both find at an operation are related. -/
inductive Added [Inspector ι] (t : Transport σ μ β ε) (R : σ → σ → Prop) (e₀ : Engine ι) :
    ℕ → Engine ι → Engine ι → Prop
  | start : Added t R e₀ 0 e₀ e₀
  | both {k : ℕ} {e e' : Engine ι} (h : Added t R e₀ k e e') {op op' : Operation}
      (hop : Counterpart e e' op op') {l l' : σ} (hl : R l l') :
      Added t R e₀ k (perform t op e l).engine (perform t op' e' l').engine
  | refused {k : ℕ} {e e' : Engine ι} (h : Added t R e₀ k e e') {op : Operation} {l : σ}
      (hrefusal : (perform t op e' l).result.isRefusal = true) :
      Added t R e₀ (k + (perform t op e' l).result.refusesArgument.toNat) e
        (perform t op e' l).engine

/-- The source is ahead by one token for each refusal for an argument. -/
theorem Added.exists_ahead [Inspector ι] {t : Transport σ μ β ε} {R : σ → σ → Prop}
    {M : μ → μ → Prop} (halike : ∀ n n', n.generation = n'.generation → t.Alike t R M n n')
    {e₀ e e' : Engine ι} {k : ℕ} (h : Added t R e₀ k e e') : ∃ τ, e' = e.ahead k τ := by
  induction h with
  | start => exact ⟨e₀.name.token, e₀.ahead_zero.symm⟩
  | @both k e _ h op op' hop l l' hl ih =>
    obtain ⟨τ, rfl⟩ := ih
    have hreaction := perform_ahead halike hl hop
    refine ⟨e.tokenAfter k τ op (perform t.recorded op e { link := l }).result, ?_⟩
    rw [← perform_over t.recorded_over op e { link := l },
      ← perform_over t.recorded_over op' (e.ahead k τ) { link := l' }]
    exact hreaction.engine_eq
  | @refused k e _ h op l hrefusal ih =>
    obtain ⟨τ, rfl⟩ := ih
    refine ⟨τ, ?_⟩
    rw [engine_of_isRefusal hrefusal]
    unfold ahead
    dsimp only
    rw [Source.drop_add]

end Engine

/-- **Refused requests leave no trace.**  On any engine, transport and link, a request that
is refused for a running upload or a missing connection leaves the engine as it was; one
that is refused for an argument has used up one token, and nothing else.  No call is made
but to ask whether the transport is ready.

So refusals of the first two kinds can be added to a run, in any number and anywhere, and
all reactions of the run and the engine after it stay the same.  Let refusals for an
argument be added as well, `k` of them, and let the transport treat tokens alike.  Then the
source is `k` tokens ahead; a session that is admitted has the token that is `k` tokens
later; and answers, calls, the links and all else of the engine are the same but for this
token. -/
theorem refusals_leave_no_trace [Inspector ι] (t : Transport σ μ β ε) :
    (∀ (op : Operation) (e : Engine ι) (link : σ),
      let r := Engine.perform t op e link
      let recorded := Engine.perform t.recorded op e { link }
      recorded.through Recorded.link = r ∧
      (r.result.error? = some .transferInProgress →
        r.engine = e ∧ r.link = link ∧ recorded.link.calls = #[]) ∧
      (r.result.error? = some .notReady →
        r.engine = e ∧ r.link = (t.ready link).2 ∧ recorded.link.calls = #[.ready]) ∧
      ∀ reason, r.result.error? = some (.invalidArgument reason) →
        r.engine = { e with source := e.source.next.2 } ∧ r.link = (t.ready link).2 ∧
          recorded.link.calls = #[.ready]) ∧
    (∀ (xs : List (Encounter σ)) (e : Engine ι),
      let reactions := Engine.encounters t xs e
      let kept := xs.filter (!·.added)
      (∀ p ∈ xs.zip reactions, p.1.added = true →
        p.2.result.error? = some .transferInProgress ∨ p.2.result.error? = some .notReady) →
      ((xs.zip reactions).filter (!·.1.added)).map Prod.snd = Engine.encounters t kept e ∧
        Engine.encountered t xs e = Engine.encountered t kept e) ∧
    ∀ (R : σ → σ → Prop) (M : μ → μ → Prop),
      (∀ n n', n.generation = n'.generation → t.Alike t R M n n') →
      ∀ (k : ℕ) (e₀ e e' : Engine ι), Engine.Added t R e₀ k e e' →
        ∃ τ, e' = e.ahead k τ ∧
          ∀ (op op' : Operation) (l l' : σ), Engine.Counterpart e e' op op' → R l l' →
            let r := Engine.perform t.recorded op e { link := l }
            Reaction.Ahead R k (e.tokenAfter k τ op r.result) r
              (Engine.perform t.recorded op' e' { link := l' }) := by
  refine ⟨fun op e link => ?_, fun xs e => Engine.encounters_filter xs e, ?_⟩
  · have hover := Engine.perform_over t.recorded_over op e { link }
    have hrecorded : ∀ failure, (Engine.perform t op e link).result.error? = some failure →
        failure.isAdmission = true →
        (Engine.perform t.recorded op e { link }).link =
          t.recorded.afterRefusal { link } failure := by
      intro failure hfailure hadmission
      have hresult : (Engine.perform t.recorded op e { link }).result =
          (Engine.perform t op e link).result := congrArg Reaction.result hover
      rw [← hresult] at hfailure
      exact (Engine.perform_refused hfailure hadmission).2
    refine ⟨hover, fun hbusy => ?_, fun hready => ?_, fun reason hinvalid => ?_⟩
    · obtain ⟨hengine, hlink⟩ := Engine.perform_refused hbusy rfl
      exact ⟨hengine, hlink, congrArg Recorded.calls (hrecorded _ hbusy rfl)⟩
    · obtain ⟨hengine, hlink⟩ := Engine.perform_refused hready rfl
      exact ⟨hengine, hlink, congrArg Recorded.calls (hrecorded _ hready rfl)⟩
    · obtain ⟨hengine, hlink⟩ := Engine.perform_refused hinvalid rfl
      exact ⟨hengine, hlink, congrArg Recorded.calls (hrecorded _ hinvalid rfl)⟩
  · intro R M halike k e₀ e e' hadded
    obtain ⟨τ, rfl⟩ := hadded.exists_ahead halike
    exact ⟨τ, rfl, fun op op' l l' hop hl => Engine.perform_ahead halike hl hop⟩

/-- The sample is started, asked for once more in vain, and given up.  In one of two runs it
is then started again; in the other an upload without a body is refused before.  The second
session has another token there, and when its first block is acknowledged, the next one is
sent alike under both tokens. -/
theorem refusals_leave_no_trace_sample :
    let t := Link.transport
    let sample := Operation.start .sample
    let fresh := Engine.new default ()
    let again : List (Encounter Link) :=
      [⟨sample, {}, false⟩, ⟨sample, {}, true⟩, ⟨.cancel, {}, false⟩]
    let ended := Engine.encountered t again fresh
    let refused := Engine.perform t .startEmpty ended {}
    let e := (Engine.perform t sample ended {}).engine
    let e' := (Engine.perform t sample refused.engine {}).engine
    let c := (ended.admission .sample).completion 0
    let c' := (refused.engine.admission .sample).completion 0
    let r := Engine.perform t.recorded (.handle (.blockAckReceived c)) e { link := {} }
    let r' := Engine.perform t.recorded (.handle (.blockAckReceived c')) e' { link := {} }
    ended = Engine.encountered t [⟨sample, {}, false⟩, ⟨.cancel, {}, false⟩] fresh ∧
      refused.engine = { ended with source := ended.source.next.2 } ∧
      c.token ≠ c'.token ∧ r.link.calls.size = 6 ∧
      ∃ τ, e' = e.ahead 1 τ ∧
        Reaction.Ahead Link.InStep 1
          (e.tokenAfter 1 τ (.handle (.blockAckReceived c)) r.result) r r' := by
  intro t sample fresh again ended refused e e' c c' r r'
  obtain ⟨hrefused, hkept, hadded⟩ := refusals_leave_no_trace (ι := Unit) t
  have hidle : ∀ p ∈ again.zip (Engine.encounters t again fresh), p.1.added = true →
      p.2.result.error? = some .transferInProgress ∨ p.2.result.error? = some .notReady := by
    decide +kernel
  have hinvalid : refused.result.error? = some (.invalidArgument .emptyBody) := by decide +kernel
  have hinstep : Link.InStep {} {} := ⟨rfl, rfl, rfl⟩
  have hone : Engine.Added t Link.InStep ended (0 + refused.result.refusesArgument.toNat) ended
      refused.engine := .refused .start (by decide +kernel)
  have hargument : refused.result.refusesArgument = true := by decide +kernel
  rw [hargument] at hone
  have hruns : Engine.Added t Link.InStep ended 1 e e' :=
    hone.both (Engine.counterpart_self rfl) hinstep
  have hcounterpart : Engine.Counterpart e e' (.handle (.blockAckReceived c))
      (.handle (.blockAckReceived c')) := by
    refine Engine.counterpart_about (by decide +kernel) (by decide +kernel) ?_ ?_
      (.handle (.blockAckReceived default))
    · decide +kernel
    · decide +kernel
  obtain ⟨τ, hahead, hreactions⟩ :=
    hadded Link.InStep _ (fun n n' _ => Link.alike n n') 1 ended e e' hruns
  exact ⟨(hkept again fresh hidle).2, ((hrefused .startEmpty ended {}).2.2.2 _ hinvalid).1,
    by decide +kernel, by decide +kernel, τ, hahead,
    hreactions _ _ {} {} hcounterpart hinstep⟩

end Blockwise
