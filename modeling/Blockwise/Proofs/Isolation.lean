import Blockwise.Proofs.Accepting
import Blockwise.Proofs.Simulation
/-!
# Sessions are isolated

Nothing that an earlier session leaves behind has an influence on a later one, but for the
name that the later one is given.  Take any engine without an active session, however the
sessions that it had have ended, and a fresh one with the same configuration.  Perform the
same operations on both, over links that refuse alike, and name completions by the place of
their message among those that were taken since.  Then both answer the same, make the same
calls and show the same digests to their inspectors, once the names of the sessions are
exchanged; and from the first session on they have the same status (`session_isolation`).

* `Command` — an operation that names a completion by a place
* `History.obey` — one command, performed
* `History.SameBut` — what a command comes to in two runs, up to names
-/

namespace Blockwise

variable {ι σ μ β ε : Type}

/-! ## Commands -/

/-- The operation that is about this completion in place of its own, if it is about
any. -/
def Operation.about (c : Completion) : Operation → Operation
  | .handle event => .handle (event.about c)
  | .complete _ status => .complete c status
  | .start upload => .start upload
  | .startUpload path body format => .startUpload path body format
  | .cancel => .cancel

/-- An operation which, if it is about a completion, means that of the message at a place
among those that were taken. -/
structure Command where
  operation : Operation
  place : ℕ := 0

/-- The operation that is meant, unless there is no message at the place. -/
def Command.resolve (command : Command) (taken : List Parcel) : Option Operation :=
  if command.operation.event.completion?.isSome then
    taken[command.place]?.map fun p => command.operation.about p.completion
  else
    some command.operation

theorem Operation.event_about (c : Completion) (op : Operation) :
    (op.about c).event = op.event.about c := by
  cases op with
  | start upload => rfl
  | startUpload path body format => rfl
  | handle event => rfl
  | complete c₀ status =>
    show Event.completed c status = (Event.completed c₀ status).about c
    cases status with
    | none => rfl
    | some code =>
      unfold Event.completed
      dsimp only
      cases code.verdict <;> rfl
  | cancel => rfl

theorem Operation.answer_about (c : Completion) (op : Operation) (outcome : Option (Outcome ε)) :
    (op.about c).answer outcome = op.answer outcome := by
  cases op <;> rfl

/-- The operation is about no completion, so none takes the place of its own. -/
theorem Operation.about_of_completion?_none {op : Operation}
    (hcompletion : op.event.completion? = none) (c : Completion) : op.about c = op := by
  cases op with
  | handle event => cases event <;> first | rfl | cases hcompletion
  | complete c₀ status =>
    rw [event, Event.completion?_completed] at hcompletion
    cases hcompletion
  | start | startUpload | cancel => rfl

theorem Operation.completion?_about (c : Completion) (op : Operation) :
    (op.about c).event.completion? = op.event.completion?.map fun _ => c := by
  rw [event_about]
  cases op.event <;> rfl

theorem Operation.about_about (c c' : Completion) (op : Operation) :
    (op.about c).about c' = op.about c' := by
  cases op with
  | handle event => cases event <;> rfl
  | start | startUpload | complete | cancel => rfl

namespace History

variable [Inspector ι]

/-- The history after one more command.  Without a message at the place nothing is done. -/
def obey (t : Transport σ μ β ε) (h : History ι σ) (command : Command) : History ι σ :=
  match command.resolve h.link.taken with
  | none => h
  | some op => h.step t op

def obeyAll (t : Transport σ μ β ε) (commands : List Command) (h : History ι σ) : History ι σ :=
  commands.foldl (obey t) h

/-- What the command is answered, unless there is no message at the place. -/
def answer? (t : Transport σ μ β ε) (h : History ι σ) (command : Command) : Option (Answer ε) :=
  (command.resolve h.link.taken).map fun op =>
    (Engine.perform t op h.engine h.link.link).result

/-- What is seen of a command in two runs is the same but for the name of the session that
is the latest then. -/
structure SeenAlike (t t' : Transport σ μ β ε) (command : Command)
    (h h' : History ι (Recorded σ)) : Prop where
  answer : ∃ answer : Option (Answer ε),
    h.answer? t.recorded command =
        answer.map (Answer.under (h.obey t.recorded command).name) ∧
      h'.answer? t'.recorded command =
        answer.map (Answer.under (h'.obey t'.recorded command).name)
  calls : ∃ calls : List Call,
    (h.obey t.recorded command).link.link.calls.toList =
        h.link.link.calls.toList ++ calls.map (Call.under (h.obey t.recorded command).name) ∧
      (h'.obey t'.recorded command).link.link.calls.toList =
        h'.link.link.calls.toList ++ calls.map (Call.under (h'.obey t'.recorded command).name)
  digests : ∃ digests : List Digest,
    (h.obey t.recorded command).engine.inspector = observeAll digests h.engine.inspector ∧
      (h'.obey t'.recorded command).engine.inspector = observeAll digests h'.engine.inspector

/-- What a command comes to in two runs is the same but for the names of the sessions. -/
structure SameBut (t t' : Transport σ μ β ε) (command : Command)
    (h h' : History ι (Recorded σ)) : Prop extends SeenAlike t t' command h h' where
  /-- Sessions keep their names, and no two of them have the same.  So the names in one run
  and those in the other are a renaming, one to one, that only ever grows. -/
  names : h.names <:+ (h.obey t.recorded command).names ∧
    h'.names <:+ (h'.obey t'.recorded command).names ∧
    (h.obey t.recorded command).names.length = (h'.obey t'.recorded command).names.length ∧
    (h.obey t.recorded command).names.Nodup ∧ (h'.obey t'.recorded command).names.Nodup
  session : ∃ s : Option Session,
    (h.obey t.recorded command).engine.session? =
        s.map (Session.under (h.obey t.recorded command).name) ∧
      (h'.obey t'.recorded command).engine.session? =
        s.map (Session.under (h'.obey t'.recorded command).name)
  /-- From the first session on. -/
  status_eq : (h.obey t.recorded command).names ≠ [] →
    (h.obey t.recorded command).engine.status = (h'.obey t'.recorded command).engine.status

/-! ## Runs of commands -/

section Runs

variable {t : Transport σ μ β ε} {h : History ι σ}

/-- A command is at most one operation. -/
theorem obey_eq_run (t : Transport σ μ β ε) (h : History ι σ) (command : Command) :
    h.obey t command = h.run t (command.resolve h.link.taken).toList := by
  unfold obey
  cases command.resolve h.link.taken <;> rfl

theorem Sound.obey (hs : h.Sound) (command : Command) : (h.obey t command).Sound := by
  rw [obey_eq_run]
  exact hs.run _

theorem NumberedFrom.obey {g : UInt32} (hn : h.NumberedFrom g) (hs : h.Sound) (command : Command) :
    (h.obey t command).NumberedFrom g := by
  rw [obey_eq_run]
  exact hn.run hs _

theorem Sound.names_suffix_obey (hs : h.Sound) (command : Command) :
    h.names <:+ (h.obey t command).names := by
  rw [obey_eq_run]
  exact (hs.admissions_suffix_run _).map _

/-- Sessions keep their names while commands are obeyed. -/
theorem Sound.names_suffix_obeyAll (hs : h.Sound) (commands : List Command) :
    h.names <:+ (h.obeyAll t commands).names := by
  induction commands generalizing h with
  | nil => exact List.suffix_rfl
  | cons command commands ih =>
    exact (hs.names_suffix_obey command).trans (ih (hs.obey command))

end Runs

/-! ## In step throughout -/

namespace Pair

variable {t t' : Transport σ μ β ε} {R : σ → σ → Prop} {M : μ → μ → Prop}
  {h h' : History ι (Recorded σ)}

/-- A command means the same in both runs, and keeps them in step. -/
theorem resolve (halike : ∀ n n', t.Alike t' R M n n') (hp : Pair R h h')
    (hnodup : (h.admissions.map Admission.generation).Nodup)
    (hnodup' : (h'.admissions.map Admission.generation).Nodup) (command : Command) :
    (command.resolve h.link.taken = none ∧ command.resolve h'.link.taken = none) ∨
      ∃ op op' : Operation, command.resolve h.link.taken = some op ∧
        command.resolve h'.link.taken = some op' ∧
        (∀ outcome : Option (Outcome ε), op.answer outcome = op'.answer outcome) ∧
        Step R t t' op.event op'.event h h' := by
  unfold Command.resolve
  by_cases hsome : command.operation.event.completion?.isSome = true
  · rw [if_pos hsome, if_pos hsome]
    have hlength := hp.length_taken
    obtain ⟨c, hcompletion⟩ := Option.isSome_iff_exists.1 hsome
    have hrequest := Event.not_isRequest_of_completion? hcompletion
    cases hget : h.link.taken[command.place]? with
    | none =>
      rw [List.getElem?_eq_none_iff, hlength, ← List.getElem?_eq_none_iff] at hget
      rw [hget]
      exact .inl ⟨rfl, rfl⟩
    | some p =>
      obtain ⟨hlt, -⟩ := List.getElem?_eq_some_iff.1 hget
      have hget' := List.getElem?_eq_getElem (hlength ▸ hlt)
      rw [hget']
      refine .inr ⟨_, _, rfl, rfl, fun outcome => ?_, ?_⟩
      · rw [Operation.answer_about, Operation.answer_about]
      · rw [Operation.event_about, Operation.event_about]
        exact hp.report halike hnodup hnodup' hrequest fun _ => ⟨_, _, _, hget, hget', rfl, rfl⟩
  · rw [if_neg hsome, if_neg hsome]
    refine .inr ⟨_, _, rfl, rfl, fun _ => rfl, ?_⟩
    cases hevent : command.operation.event with
    | admissionRequested upload => exact hp.request halike upload
    | cancelled =>
      -- A cancellation is about no message, so any two completions will do.
      show Step R t t' (Event.cancelled.about default) (Event.cancelled.about default) h h'
      exact hp.report halike hnodup hnodup' rfl (by rintro ⟨⟩)
    | _ =>
      rw [hevent] at hsome
      exact absurd rfl hsome

/-- The same is seen of a command in both runs, and they are in step after it. -/
theorem obey (halike : ∀ n n', t.Alike t' R M n n') (hp : Pair R h h')
    (hnodup : (h.admissions.map Admission.generation).Nodup)
    (hnodup' : (h'.admissions.map Admission.generation).Nodup) (command : Command) :
    Pair R (h.obey t.recorded command) (h'.obey t'.recorded command) ∧
      SeenAlike t t' command h h' := by
  rcases hp.resolve halike hnodup hnodup' command with
    ⟨hop, hop'⟩ | ⟨op, op', hop, hop', hsame, hpair, hreaction⟩
  · have hg : h.obey t.recorded command = h := by rw [History.obey, hop]
    have hg' : h'.obey t'.recorded command = h' := by rw [History.obey, hop']
    refine ⟨by rwa [hg, hg'], ⟨none, ?_, ?_⟩, ⟨[], ?_, ?_⟩, ⟨[], ?_, ?_⟩⟩
    · exact congrArg (Option.map _) hop
    · exact congrArg (Option.map _) hop'
    · rw [hg, List.map_nil, List.append_nil]
    · rw [hg', List.map_nil, List.append_nil]
    · exact congrArg (·.engine.inspector) hg
    · exact congrArg (·.engine.inspector) hg'
  · have hg : h.obey t.recorded command = h.handled t.recorded op.event := by
      rw [History.obey, hop]
      exact step_eq _ _ _
    have hg' : h'.obey t'.recorded command = h'.handled t'.recorded op'.event := by
      rw [History.obey, hop']
      exact step_eq _ _ _
    obtain ⟨outcome, hresult, hresult'⟩ := hreaction.result
    refine ⟨by rwa [hg, hg'], ⟨some (op.answer outcome), ?_, ?_⟩, ?_, ?_⟩
    · rw [answer?, hop, Option.map_some, Option.map_some, result_eq, hresult,
        Operation.answer_under, hg]
    · rw [answer?, hop', Option.map_some, Option.map_some, result_eq, hresult',
        Operation.answer_under, hsame, hg']
    · rw [hg, hg']
      exact hreaction.link.link.calls
    · rw [hg, hg']
      exact hreaction.inspector

/-- After any commands the next one comes to the same in both runs, as long as generations
do not repeat. -/
theorem sameBut (halike : ∀ n n', t.Alike t' R M n n') (hp : Pair R h h') {g g' : UInt32}
    (hn : h.NumberedFrom g) (hn' : h'.NumberedFrom g') (commands : List Command)
    (command : Command)
    (hlength : ((h.obeyAll t.recorded commands).obey t.recorded command).names.length ≤
      UInt32.size) :
    SameBut t t' command (h.obeyAll t.recorded commands) (h'.obeyAll t'.recorded commands) := by
  induction commands generalizing h h' with
  | nil =>
    have hsuffix := hp.sound.names_suffix_obey (t := t.recorded) command
    have hle : h.names.length ≤ UInt32.size := hsuffix.length_le.trans hlength
    have hle' : h'.names.length ≤ UInt32.size := hp.length_names_eq ▸ hle
    obtain ⟨hpair, hseen⟩ :=
      hp.obey halike (hn.nodup_generations hle) (hn'.nodup_generations hle') command
    have hnodup := nodup_names ((hn.obey hp.sound command).nodup_generations hlength)
    have hnodup' := nodup_names
      ((hn'.obey hp.sound' command).nodup_generations (hpair.length_names_eq ▸ hlength))
    exact
      { hseen with
        names := ⟨hsuffix, hp.sound'.names_suffix_obey command, hpair.length_names_eq, hnodup,
          hnodup'⟩
        session := hpair.engine.session
        status_eq := hpair.status_eq }
  | cons first commands ih =>
    have hsuffix := hp.sound.names_suffix_obeyAll (t := t.recorded) (first :: commands ++ [command])
    rw [History.obeyAll, List.foldl_concat] at hsuffix
    have hle : h.names.length ≤ UInt32.size := hsuffix.length_le.trans hlength
    have hle' : h'.names.length ≤ UInt32.size := hp.length_names_eq ▸ hle
    obtain ⟨hpair, -⟩ :=
      hp.obey halike (hn.nodup_generations hle) (hn'.nodup_generations hle') first
    exact ih hpair (hn.obey hp.sound first) (hn'.obey hp.sound' first) hlength

end Pair

end History

/-! ## Ends of sessions -/

/-- An outcome of a session, or a failure to send its first window, leaves no session
behind. -/
theorem Engine.not_isActive_of_over [Inspector ι] (t : Transport σ μ β ε) (op : Operation)
    (e : Engine ι) (link : σ)
    (hover : (perform t op e link).result.ends = true ∨
      ∃ failure, (perform t op e link).result.error? = some (.dispatch failure)) :
    (perform t op e link).engine.isActive = false := by
  obtain ⟨outcome, hresult, hturn⟩ := perform_turn t op e link
  rw [hresult] at hover
  generalize (perform t op e link).engine = e' at hturn ⊢
  unfold isActive
  rw [decide_eq_false_iff_not]
  generalize e'.status = status at hturn ⊢
  rintro rfl
  generalize e.status = before at hturn
  generalize hevent : op.event = event at hturn
  generalize hafter : Status.active = after at hturn
  cases hturn with
  | admitted hrequest hs =>
    rw [Operation.ends_answer_none, Operation.error?_answer_none] at hover
    obtain ⟨⟨⟩⟩ | ⟨_, ⟨⟩⟩ := hover
  | refused hrequest hadmission hbusy =>
    rw [Operation.ends_answer_error, Operation.error?_answer_error] at hover
    · obtain ⟨⟨⟩⟩ | ⟨failure, ⟨⟩⟩ := hover
      cases hadmission
    · rintro cause rfl
      cases hadmission
  | aborted => cases hafter
  | kept hrequest =>
    rw [Operation.ends_answer_none, Operation.error?_answer_none] at hover
    obtain ⟨⟨⟩⟩ | ⟨_, ⟨⟩⟩ := hover
  | applied => cases hafter
  | failed => cases hafter

/-! ## Isolation -/

/-- **Sessions are isolated.**  Take an engine after any run, and a fresh one with the same
configuration, on links that refuse alike.  If no session is active, any commands come to
the same on both but for the names of the sessions: what is answered, what is called, what
the inspectors are shown, and the session under way; and once a session was admitted, the
status.  This is as long as there are not more sessions than generations.

In particular it is so after any outcome of a session, and after a failure to send its
first window. -/
theorem session_isolation [Inspector ι] {σ₀ μ₀ β₀ ε₀ : Type} (t₀ : Transport σ₀ μ₀ β₀ ε₀)
    (stream stream' : WordStream) (config : Config) (inspector inspector' : ι) (link₀ : σ₀)
    (ops : List Operation) {t t' : Transport σ μ β ε} {R : σ → σ → Prop} {M : μ → μ → Prop}
    (halike : ∀ n n', t.Alike t' R M n n') {link link' : σ} (hlink : R link link')
    (commands : List Command) (command : Command) :
    let last := Engine.after t₀ ops (Engine.ofStream stream config inspector) link₀
    let h := (History.ofEngine last.1 { link }).obeyAll t.recorded commands
    let h' := (History.ofEngine (Engine.ofStream stream' config inspector')
      { link := link' }).obeyAll t'.recorded commands
    (last.1.isActive = false → (h.obey t.recorded command).names.length ≤ UInt32.size →
      h.SameBut t t' command h') ∧
    ∀ op, ((Engine.perform t₀ op last.1 last.2).result.ends = true ∨
        ∃ failure, (Engine.perform t₀ op last.1 last.2).result.error? = some (.dispatch failure)) →
      (Engine.perform t₀ op last.1 last.2).engine.isActive = false := by
  intro last h h'
  refine ⟨fun hfree hlength => ?_, fun op => Engine.not_isActive_of_over t₀ op last.1 last.2⟩
  -- Without sessions the runs are in step, whatever is left of earlier ones.
  have hstart : History.Pair R (History.ofEngine last.1 { link })
      (History.ofEngine (Engine.ofStream stream' config inspector') { link := link' }) :=
    { sound := .ofEngine (Engine.session?_of_not_isActive hfree)
      sound' := .ofEngine rfl
      engine :=
        ⟨Engine.config_after t₀ ops _ link₀, none, Engine.session?_of_not_isActive hfree, rfl⟩
      records := .nil
      status_eq := fun hne => absurd rfl hne
      link := hlink }
  exact hstart.sameBut halike (.ofEngine _ _) (.ofEngine _ _) commands command hlength

/-- An upload of the sample is given up, and the sample is uploaded again on a link that
refuses the third message: all goes as it does on a fresh engine, the refusal included,
though the session has another name. -/
theorem session_isolation_sample :
    let engine := Engine.ofStream (.ofSeed 0) default (#[] : Array Digest)
    let begun := Engine.after Transport.sink [.start .sample] engine ()
    let last := Engine.after Transport.sink [.start .sample, .cancel] engine ()
    let link : Recorded Link := { link := { script := { sends := [2] } } }
    let upload : List Command := [{ operation := .start .sample }]
    let command : Command := { operation := .complete default (some .continued), place := 0 }
    let h := (History.ofEngine last.1 link).obeyAll Link.transport.recorded upload
    let h' := (History.ofEngine engine link).obeyAll Link.transport.recorded upload
    last.1.isActive = false ∧
      (h.obey Link.transport.recorded command).names.length ≤ UInt32.size ∧
      h.SameBut Link.transport Link.transport command h' ∧ h.name ≠ h'.name ∧
      (h.answer? Link.transport.recorded command).bind Answer.error? =
        some (.failed (.dispatch (.sendFailed .send))) ∧
      (Engine.perform Transport.sink .cancel begun.1 begun.2).result.ends = true ∧
      (Engine.perform Transport.sink .cancel begun.1 begun.2).engine.isActive = false := by
  intro engine begun last link upload command h h'
  have hfree : last.1.isActive = false := by decide +kernel
  have hlink : Link.InStep link.link link.link := ⟨rfl, rfl, rfl⟩
  have hlength : (h.obey Link.transport.recorded command).names.length ≤ UInt32.size := by
    decide +kernel
  have hends : (Engine.perform Transport.sink .cancel begun.1 begun.2).result.ends = true := by
    decide +kernel
  have hsame := (session_isolation .sink (.ofSeed 0) (.ofSeed 0) default (#[] : Array Digest) #[] ()
    [.start .sample, .cancel] Link.alike hlink upload command).1
    hfree hlength
  have hover := (session_isolation .sink (.ofSeed 0) (.ofSeed 0) default (#[] : Array Digest) #[] ()
    [.start .sample] Link.alike hlink upload command).2 .cancel
    (.inl hends)
  exact ⟨hfree, hlength, hsame, by decide +kernel, by decide +kernel, hends, hover⟩

end Blockwise
