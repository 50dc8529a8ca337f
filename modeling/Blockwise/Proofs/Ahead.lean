import Blockwise.Proofs.Isolation
import Blockwise.Proofs.Tokens
/-!
# Engines whose source is ahead

Of two engines the source of one is some tokens ahead, and the session under way has another
token; all else is the same (`Engine.ahead`).  An operation and its counterpart, which may
bear the other token, come to the same on both but for a token, and leave the one source as
far ahead as it was (`Engine.perform_ahead`).

**Only tokens differ.**  Both engines give the next session the same generation.  So a
completion for an earlier session is told from one for the session under way in the same
way on both, and no bound on the number of sessions is needed: where generations come
round, `Engine.Counterpart` asks that the tokens tell the same.
-/

namespace Blockwise

variable {ι σ μ β ε : Type}

/-! ## Under another token -/

def Session.withToken (τ : Token) (s : Session) : Session := { s with token := τ }

def Slot.withToken (τ : Token) : Slot → Slot
  | .active s => .active (s.withToken τ)
  | .idle => .idle
  | .completed => .completed
  | .failed => .failed

def Completion.withToken (τ : Token) (c : Completion) : Completion := { c with token := τ }

def Call.withToken (τ : Token) : Call → Call
  | .create method _ => .create method τ
  | .send c => .send (c.withToken τ)
  | .ready => .ready
  | .setPath path => .setPath path
  | .setFormat format => .setFormat format
  | .setBlock header => .setBlock header
  | .setPayload payload => .setPayload payload

def Answer.withToken (τ : Token) : Answer ε → Answer ε
  | .admission result => .admission result
  | .outcome result => .outcome (result.map (Except.map fun report => { report with token := τ }))

/-- The operation that is about the same block of a session with another token, if it is
about any. -/
def Operation.withToken (τ : Token) (op : Operation) : Operation :=
  match op.event.completion? with
  | some c => op.about (c.withToken τ)
  | none => op

section

variable {n n' : Name}

/-! Where the names differ in the token alone, this is what `under` comes to. -/

theorem Slot.under_eq_withToken (hgeneration : n.generation = n'.generation) (slot : Slot) :
    slot.under n' = (slot.under n).withToken n'.token := by
  cases slot with
  | active s =>
    rw [under, under, withToken, Session.under, Session.under, Session.withToken, hgeneration]
  | idle | completed | failed => rfl

theorem Call.under_eq_withToken (hgeneration : n.generation = n'.generation) (call : Call) :
    call.under n' = (call.under n).withToken n'.token := by
  cases call with
  | send c =>
    rw [under, under, withToken, Completion.under, Completion.under, Completion.withToken,
      hgeneration]
  | _ => rfl

theorem Answer.under_eq_withToken (answer : Answer ε) :
    answer.under n' = (answer.under n).withToken n'.token := by
  obtain _ | (_ | _ | _) := answer <;> rfl

end

theorem Slot.session?_withToken (τ : Token) (slot : Slot) :
    (slot.withToken τ).session? = slot.session?.map (Session.withToken τ) := by
  cases slot <;> rfl

/-- The engine with another token for its session, and with its source this many tokens
ahead. -/
def Engine.ahead (k : ℕ) (τ : Token) (e : Engine ι) : Engine ι :=
  { e with slot := e.slot.withToken τ, source := e.source.drop k }

/-- The token of the session after an operation, where the source is this many tokens
ahead: a session that is admitted has the token that the source issues after as many others,
and any other session has the token that it had. -/
def Engine.tokenAfter (e : Engine ι) (k : ℕ) (τ : Token) (op : Operation) (answer : Answer ε) :
    Token :=
  if op.event.isRequest && !answer.isRefusal then e.source.token k else τ

/-- What the operation `op` means on one engine `op'` means on the other: it is the same
but for the token of its completion; and a completion with the generation of the active
session has the token of the active session on both engines or on neither. -/
def Engine.Counterpart (e e' : Engine ι) (op op' : Operation) : Prop :=
  ∃ τ, op' = op.withToken τ ∧
    ∀ c ∈ op.event.completion?, ∀ s ∈ e.session?, ∀ s' ∈ e'.session?,
      c.generation = s.generation → (c.token = s.token ↔ τ = s'.token)

/-- What the operation left behind in the second run is what it left behind in the first,
but for a token, and for the source that is ahead. -/
structure Reaction.Ahead (R : σ → σ → Prop) (k : ℕ) (τ : Token)
    (r r' : Reaction ι (Recorded σ) (Answer ε)) : Prop where
  result_eq : r'.result = r.result.withToken τ
  engine_eq : r'.engine = r.engine.ahead k τ
  calls_eq : r'.link.calls.toList = r.link.calls.toList.map (Call.withToken τ)
  link : R r.link.link r'.link.link

/-! ## What is drawn -/

/-- A token is drawn for the event, going by what it comes to. -/
def Event.draws (event : Event) : Option (Outcome ε) → Bool
  | some (.error .transferInProgress) | some (.error .notReady) => false
  | some _ | none => event.isRequest

/-- A generation is taken for the event, going by what it comes to. -/
def Event.opens (event : Event) (outcome : Option (Outcome ε)) : Bool :=
  event.isRequest && !(Answer.outcome outcome).isRefusal

theorem Event.draws_map_under (event : Event) (n : Name) (outcome : Option (Outcome ε)) :
    event.draws (outcome.map (Outcome.under n)) = event.draws outcome := by
  obtain _ | failure | _ := outcome
  · rfl
  · cases failure <;> rfl
  · rfl

theorem Event.opens_map_under (event : Event) (n : Name) (outcome : Option (Outcome ε)) :
    event.opens (outcome.map (Outcome.under n)) = event.opens outcome :=
  congrArg (event.isRequest && !·) ((Answer.outcome outcome).isRefusal_under n)

theorem Event.draws_about (c : Completion) (event : Event) (outcome : Option (Outcome ε)) :
    (event.about c).draws outcome = event.draws outcome := by
  unfold draws
  rw [isRequest_about]

theorem Event.opens_about (c : Completion) (event : Event) (outcome : Option (Outcome ε)) :
    (event.about c).opens outcome = event.opens outcome := by
  unfold opens
  rw [isRequest_about]

/-! ## One step with the source ahead -/

namespace Engine

/-- The name of the active session; any name if there is none. -/
def name (e : Engine ι) : Name :=
  match e.session? with
  | some s => { token := s.token, generation := s.generation }
  | none => default

/-- The same name with another token. -/
def renamed (e : Engine ι) (τ : Token) : Name := { e.name with token := τ }

variable {e : Engine ι} {k : ℕ} {τ : Token}

theorem session?_ahead : (e.ahead k τ).session? = e.session?.map (Session.withToken τ) :=
  e.slot.session?_withToken τ

theorem ahead_zero (e : Engine ι) : e.ahead 0 e.name.token = e := by
  obtain ⟨config, slot, source, generation, inspector⟩ := e
  cases slot <;> rfl

theorem eq_ahead {e' : Engine ι} (hconfig : e'.config = e.config)
    (hslot : e'.slot = e.slot.withToken τ) (hsource : e'.source = e.source.drop k)
    (hgeneration : e'.generation = e.generation) (hinspector : e'.inspector = e.inspector) :
    e' = e.ahead k τ := by
  obtain ⟨config, slot, source, generation, inspector⟩ := e'
  dsimp only at hconfig hslot hsource hgeneration hinspector
  rw [hconfig, hslot, hsource, hgeneration, hinspector]
  rfl

/-- The sessions differ in the name alone. -/
theorem pair_ahead (e : Engine ι) (k : ℕ) (τ : Token) :
    Pair e.name (e.renamed τ) e (e.ahead k τ) where
  config_eq := rfl
  session := by
    refine ⟨e.session?, ?_, ?_⟩
    · unfold name
      cases e.session? <;> rfl
    · rw [session?_ahead]
      unfold renamed name
      cases e.session? <;> rfl

/-- A completion and its counterpart are owned alike. -/
theorem owner?_ahead {c : Completion} {τ' : Token}
    (htoken : ∀ s ∈ e.session?, ∀ s' ∈ (e.ahead k τ).session?, c.generation = s.generation →
      (c.token = s.token ↔ τ' = s'.token)) :
    ∃ s : Option Session, e.owner? c = s.map (Session.under e.name) ∧
      (e.ahead k τ).owner? (c.withToken τ') = s.map (Session.under (e.renamed τ)) := by
  obtain ⟨-, s, hs, hs'⟩ := e.pair_ahead k τ
  refine owner?_pair hs hs' ?_
  rintro s rfl
  have hiff := htoken _ hs _ hs'
  constructor
  · rintro ⟨htoken, hgeneration, hmem⟩
    exact ⟨(hiff hgeneration).1 htoken, hgeneration, hmem⟩
  · rintro ⟨htoken, hgeneration, hmem⟩
    exact ⟨(hiff hgeneration).2 htoken, hgeneration, hmem⟩

section

variable [Inspector ι] {t : Transport σ μ β ε} {R : σ → σ → Prop} {M : μ → μ → Prop} {l l' : σ}

/-- What becomes of the source and of the generation goes by what the event comes to. -/
theorem handle_counters (t : Transport σ μ β ε) (event : Event) (e : Engine ι) (link : σ) :
    let r := handle t event e link
    r.engine.source = (if event.draws r.result then e.source.next.2 else e.source) ∧
      r.engine.generation = (if event.opens r.result then e.generation + 1 else e.generation) := by
  have hcourse := handle_course t event e link
  generalize handle t event e link = r at hcourse ⊢
  cases hcourse with
  | ignored hcompletion howner => cases event <;> first | exact ⟨rfl, rfl⟩ | cases hcompletion
  | _ => exact ⟨rfl, rfl⟩

/-- What is the same but for the names, differing in the token, leaves the source as far
ahead as it was.  Where the slot is left as it was, so is the token. -/
theorem ahead_of_pair {n n' : Name} (op : Operation) (c : Completion)
    (hpair : Reaction.Pair (Recorded.Pair R n n' [] []) n n' op.event e (e.ahead k τ)
      (handle t.recorded op.event e { link := l })
      (handle t.recorded (op.event.about c) (e.ahead k τ) { link := l' }))
    (hkept : (op.event.isRequest = true →
      (Answer.outcome (handle t.recorded op.event e { link := l }).result).isRefusal = true) →
        n'.token = τ)
    (hgeneration : n.generation = n'.generation) :
    Reaction.Ahead R k n'.token (perform t.recorded op e { link := l })
      (perform t.recorded (op.about c) (e.ahead k τ) { link := l' }) := by
  rw [perform_eq, perform_eq, Operation.event_about]
  obtain ⟨outcome, hresult, hresult'⟩ := hpair.result
  obtain ⟨calls, hcalls, hcalls'⟩ := hpair.link.calls
  obtain ⟨digests, hinspector, hinspector'⟩ := hpair.inspector
  obtain ⟨hsource, hopened⟩ := handle_counters t.recorded op.event e { link := l }
  obtain ⟨hsource', hopened'⟩ :=
    handle_counters t.recorded (op.event.about c) (e.ahead k τ) { link := l' }
  have hconfig := config_handle t.recorded op.event e { link := l }
  have hconfig' := config_handle t.recorded (op.event.about c) (e.ahead k τ) { link := l' }
  have hslot := hpair.slot
  have hlink := hpair.link.link
  clear hpair
  generalize handle t.recorded op.event e { link := l } = r at *
  generalize handle t.recorded (op.event.about c) (e.ahead k τ) { link := l' } = r' at *
  rw [hresult, Event.draws_map_under] at hsource
  rw [hresult, Event.opens_map_under] at hopened
  rw [hresult', Event.draws_map_under, Event.draws_about] at hsource'
  rw [hresult', Event.opens_map_under, Event.opens_about] at hopened'
  refine ⟨?_, ?_, ?_, hlink⟩
  · show (op.about c).answer r'.result = (op.answer r.result).withToken n'.token
    rw [hresult, hresult', Operation.answer_about, Operation.answer_under, Operation.answer_under]
    exact Answer.under_eq_withToken _
  · show r'.engine = r.engine.ahead k n'.token
    have hslot' : r'.engine.slot = r.engine.slot.withToken n'.token := by
      obtain ⟨hslot, hslot', hrefused⟩ | ⟨slot, hslot, hslot'⟩ := hslot
      · rw [hslot, hslot', hkept hrefused]
        rfl
      · rw [hslot, hslot', Slot.under_eq_withToken hgeneration]
    refine eq_ahead ?_ hslot' ?_ ?_ ?_
    · rw [hconfig, hconfig']
      rfl
    · rw [hsource, hsource']
      split
      · exact (e.source.drop_succ k).symm
      · rfl
    · rw [hopened, hopened']
      rfl
    · rw [hinspector, hinspector']
      rfl
  · show r'.link.calls.toList = r.link.calls.toList.map (Call.withToken n'.token)
    rw [hcalls, hcalls', List.nil_append, List.nil_append, List.map_map]
    exact List.map_congr_left fun call _ => call.under_eq_withToken hgeneration

/-- A request comes to the same, but for the token that it draws. -/
theorem request_ahead
    (halike : ∀ n n', n.generation = n'.generation → t.Alike t R M n n') (hl : R l l')
    {op : Operation} {upload : Upload} (hevent : op.event = .admissionRequested upload) :
    let r := perform t.recorded op e { link := l }
    Reaction.Ahead R k (e.tokenAfter k τ op r.result) r
      (perform t.recorded op (e.ahead k τ) { link := l' }) := by
  intro r
  have habout : op.about default = op :=
    Operation.about_of_completion?_none (by rw [hevent]; rfl) default
  have hpair : ∀ n n', n.generation = n'.generation →
      ((Answer.outcome (handle t.recorded op.event e { link := l }).result).isRefusal = false →
        n = e.opens ∧ n' = (e.ahead k τ).opens) →
      Reaction.Pair (Recorded.Pair R n n' [] []) n n' op.event e (e.ahead k τ)
        (handle t.recorded op.event e { link := l })
        (handle t.recorded (op.event.about default) (e.ahead k τ) { link := l' }) := by
    intro n n' hgeneration hopen
    rw [hevent] at hopen ⊢
    exact request_pair ((halike n n' hgeneration).recorded [] []) (e.pair_ahead k τ)
      ⟨hl, [], rfl, rfl⟩ upload hopen
  have hrefusal : r.result.isRefusal =
      (Answer.outcome (handle t.recorded op.event e { link := l }).result).isRefusal := by
    show (perform t.recorded op e { link := l }).result.isRefusal = _
    rw [perform_eq]
    exact op.isRefusal_answer _
  have hrequest : op.event.isRequest = true := by rw [hevent]; rfl
  rw [tokenAfter, hrequest]
  cases hrefused : r.result.isRefusal with
  | true =>
    -- The sessions keep their names.
    have hreaction := ahead_of_pair op default
      (hpair e.name (e.renamed τ) rfl fun h => by cases (hrefusal.symm.trans hrefused).symm.trans h)
      (fun _ => rfl) rfl
    rw [habout] at hreaction
    exact hreaction
  | false =>
    -- Both sources issue the next token.
    have hreaction := ahead_of_pair op default
      (hpair e.opens (e.ahead k τ).opens rfl fun _ => ⟨rfl, rfl⟩)
      (fun hkept => by cases (hrefusal.symm.trans hrefused).symm.trans (hkept hrequest)) rfl
    rw [habout] at hreaction
    exact hreaction

/-- What is about the same block of both sessions, or about none, comes to the same. -/
theorem report_ahead
    (halike : ∀ n n', n.generation = n'.generation → t.Alike t R M n n') (hl : R l l')
    {op : Operation} (hrequest : op.event.isRequest = false) (c c' : Completion)
    (habout : op.event.about c = op.event)
    (howner : op.event.completion?.isSome = true → c.num = c'.num ∧
      ∃ s : Option Session, e.owner? c = s.map (Session.under e.name) ∧
        (e.ahead k τ).owner? c' = s.map (Session.under (e.renamed τ))) :
    Reaction.Ahead R k τ (perform t.recorded op e { link := l })
      (perform t.recorded (op.about c') (e.ahead k τ) { link := l' }) := by
  have halike' : t.Alike t R M e.name (e.renamed τ) := halike _ _ rfl
  have hpair := report_pair (halike'.recorded [] []) (e.pair_ahead k τ)
    (⟨hl, [], rfl, rfl⟩ : Recorded.Pair R _ _ [] [] { link := l } { link := l' }) hrequest c c'
    howner
  rw [habout] at hpair
  exact ahead_of_pair op c' hpair (fun _ => rfl) rfl

/-- An operation and its counterpart come to the same, but for the token. -/
theorem perform_ahead
    (halike : ∀ n n', n.generation = n'.generation → t.Alike t R M n n') (hl : R l l')
    {op op' : Operation} (hop : Counterpart e (e.ahead k τ) op op') :
    let r := perform t.recorded op e { link := l }
    Reaction.Ahead R k (e.tokenAfter k τ op r.result) r
      (perform t.recorded op' (e.ahead k τ) { link := l' }) := by
  intro r
  obtain ⟨τ', rfl, htoken⟩ := hop
  unfold Operation.withToken
  cases hcompletion : op.event.completion? with
  | some c =>
    have hrequest := Event.not_isRequest_of_completion? hcompletion
    have howner := owner?_ahead (htoken c hcompletion)
    rw [tokenAfter, hrequest]
    exact report_ahead halike hl hrequest c (c.withToken τ')
      (Event.about_of_completion? hcompletion) fun _ => ⟨rfl, howner⟩
  | none =>
    dsimp only
    cases hevent : op.event with
    | admissionRequested upload => exact request_ahead halike hl hevent
    | cancelled =>
      have hrequest : op.event.isRequest = false := by rw [hevent]; rfl
      have habout : op.event.about default = op.event := by rw [hevent]; rfl
      have hreaction : Reaction.Ahead R k τ _ (perform t.recorded _ (e.ahead k τ) _) :=
        report_ahead halike hl hrequest default default habout (by rw [hcompletion]; rintro ⟨⟩)
      rw [Operation.about_of_completion?_none hcompletion] at hreaction
      rw [tokenAfter, hrequest]
      exact hreaction
    | _ =>
      rw [hevent] at hcompletion
      cases hcompletion

end

/-! ## Counterparts -/

theorem counterpart_self {e e' : Engine ι} {op : Operation}
    (hcompletion : op.event.completion? = none) : Counterpart e e' op op := by
  refine ⟨∅, ?_, ?_⟩
  · rw [Operation.withToken, hcompletion]
  · rw [hcompletion]
    rintro c ⟨⟩

/-- Completions for the same block of the sessions under way make counterparts. -/
theorem counterpart_about {e e' : Engine ι} {c c' : Completion} (hnum : c.num = c'.num)
    (hgeneration : c.generation = c'.generation) (hc : ∀ s ∈ e.session?, c.token = s.token)
    (hc' : ∀ s ∈ e'.session?, c'.token = s.token) (op : Operation) :
    Counterpart e e' (op.about c) (op.about c') := by
  refine ⟨c'.token, ?_, ?_⟩
  · have hself : c.withToken c'.token = c' := by
      rw [Completion.withToken, hnum, hgeneration]
    unfold Operation.withToken
    rw [Operation.completion?_about]
    cases hcompletion : op.event.completion? with
    | none =>
      rw [Operation.about_of_completion?_none hcompletion,
        Operation.about_of_completion?_none hcompletion]
      rfl
    | some c₀ =>
      show op.about c' = (op.about c).about (c.withToken c'.token)
      rw [Operation.about_about, hself]
  · intro c₁ hc₁ s hs s' hs' _
    rw [Operation.completion?_about] at hc₁
    obtain ⟨c₀, -, rfl⟩ := Option.map_eq_some_iff.1 hc₁
    exact iff_of_true (hc s hs) (hc' s' hs')

end Engine

end Blockwise
