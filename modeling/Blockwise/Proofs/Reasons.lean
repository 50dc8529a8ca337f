import Blockwise.Proofs.Progress
import Blockwise.Proofs.Sending
import Blockwise.Proofs.Trace
/-!
# Reasons to refuse an upload

Nine things can keep an upload from being started.  They may apply together, and of those
that apply the first is reported.  `Admission.flaw?` and `Engine.refusal?` say which are
looked at before anything is sent, and in which order, each by a condition of its own.
What remains is the failure of a call for one of the first blocks.

**The answer to a request is determined**: by the first refusal that applies
(`Engine.start_of_refusal?`), or else by what comes of handing over the first window
(`History.Sound.start_of_unrefused`).
-/

namespace Blockwise

variable {ι σ μ β ε : Type}

/-! ## Unacceptable arguments -/

namespace Size

/-- The permitted sizes are the powers of two from 16 to 1024. -/
theorem exists_bytes_eq_iff {n : ℕ} :
    (∃ size : Size, size.bytes = n) ↔ n ∈ [16, 32, 64, 128, 256, 512, 1024] := by
  have hall : all.map bytes = [16, 32, 64, 128, 256, 512, 1024] := by decide
  rw [← hall, List.mem_map]
  exact exists_congr fun size => (and_iff_right (mem_all size)).symm

theorem ofBytes?_eq_none_iff {n : ℕ} :
    ofBytes? n = none ↔ n ∉ [16, 32, 64, 128, 256, 512, 1024] := by
  rw [← exists_bytes_eq_iff, Option.eq_none_iff_forall_ne_some]
  simp only [ne_eq, ofBytes?_eq_some_iff, not_exists]

end Size

namespace Admission

variable (a : Admission)

/-- The number of blocks that the body takes. -/
def blocks : ℕ := a.upload.body.size ⌈/⌉ a.size.bytes

/-- The block size that the upload asks for, if it asks for one that is not permitted. -/
def sizeFlaw? : Option Invalid :=
  a.upload.blockSize.bind fun bytes =>
    if bytes ∈ [16, 32, 64, 128, 256, 512, 1024] then none else some (.blockSize bytes)

/-- What is unacceptable about the upload; of several things the first of these. -/
def flaw? : Option Invalid :=
  a.sizeFlaw? <|>
  (if a.upload.path.toList.all (· == '/') then some .emptyPath else none) <|>
  (if a.upload.body.size = 0 then some .emptyBody else none) <|>
  (if a.limit = 0 then some .window else none) <|>
  (if 2 ^ 20 < a.blocks then some (.tooManyBlocks a.blocks) else none)

variable {a}

theorem total_eq_blocks : a.total = a.blocks := Size.blocksFor_eq_ceilDiv _ _

theorem target_eq_empty_iff :
    a.upload.target = "" ↔ a.upload.path.toList.all (· == '/') = true := by
  refine not_iff_not.1 (Path.trim_ne_empty_iff.trans ?_)
  rw [List.all_eq_true]
  push Not
  simp only [beq_iff_eq, ne_eq]

theorem chooseSize_eq (a : Admission) :
    Session.chooseSize a.upload a.config =
      match a.sizeFlaw? with
      | some reason => .error reason
      | none => .ok a.size := by
  unfold Session.chooseSize sizeFlaw? size
  cases a.upload.blockSize with
  | none => rfl
  | some bytes =>
    dsimp only [Option.bind_some]
    cases hsize : Size.ofBytes? bytes with
    | none =>
      rw [if_neg (Size.ofBytes?_eq_none_iff.1 hsize)]
    | some size =>
      rw [if_pos (Size.exists_bytes_eq_iff.1 ⟨size, Size.ofBytes?_eq_some_iff.1 hsize⟩)]
      rfl

/-- An upload has a session unless something about it is unacceptable. -/
theorem ofUpload_eq (a : Admission) :
    Session.ofUpload a.upload a.config a.token a.generation =
      match a.flaw? with
      | some reason => .error reason
      | none => .ok (a.session a.window) := by
  unfold Session.ofUpload flaw?
  rw [chooseSize_eq]
  cases a.sizeFlaw? with
  | some reason => rfl
  | none =>
    have hblocks : a.size.blocksFor a.upload.body.size = a.blocks := total_eq_blocks
    have hlimits : a.upload.window.getD a.config.pacing.window = a.limit := rfl
    have hmax : Header.maxNum + 1 = 2 ^ 20 := rfl
    simp only [target_eq_empty_iff, hlimits, hmax, hblocks, gt_iff_lt, bind, Except.bind, pure,
      Except.pure, throw, throwThe, MonadExceptOf.throw]
    by_cases hpath : a.upload.path.toList.all (· == '/') = true
    · rw [if_pos hpath, if_pos hpath]
      rfl
    rw [if_neg hpath, if_neg hpath]
    by_cases hbody : a.upload.body.size = 0
    · rw [if_pos hbody, if_pos hbody]
      rfl
    rw [if_neg hbody, if_neg hbody]
    by_cases hlimit : a.limit = 0
    · rw [if_pos hlimit, if_pos hlimit]
      rfl
    rw [if_neg hlimit, if_neg hlimit]
    by_cases htotal : 2 ^ 20 < a.blocks
    · rw [if_pos htotal, if_pos htotal]
      rfl
    rw [if_neg htotal, if_neg htotal, ← total_eq_blocks]
    rfl

theorem valid_iff_flaw? : a.Valid ↔ a.flaw? = none := by
  have hok : a.Valid ↔ Session.ofUpload a.upload a.config a.token a.generation =
      .ok (a.session a.window) := by
    rw [ofUpload_eq_ok_iff]
    exact (and_iff_left rfl).symm
  rw [hok, ofUpload_eq]
  cases a.flaw? with
  | none => exact iff_of_true rfl rfl
  | some reason => exact iff_of_false (by rintro ⟨⟩) (by rintro ⟨⟩)

end Admission

/-! ## Refusals -/

namespace Engine

/-- The refusal of the upload, if it is refused; of several the first of these. -/
def refusal? (e : Engine ι) (ready : Bool) (upload : Upload) : Option (UploadError ε) :=
  (if e.isActive then some .transferInProgress else none) <|>
  (if ready then none else some .notReady) <|>
  (e.admission upload).flaw?.map .invalidArgument

variable {e : Engine ι} {ready : Bool} {upload : Upload} {refusal : UploadError ε}

/-- What is known of the engine, the transport and the upload from a refusal. -/
theorem refusal?_cases (h : e.refusal? ready upload = some refusal) :
    (e.isActive = true ∧ refusal = .transferInProgress) ∨
      e.isActive = false ∧ (ready = false ∧ refusal = .notReady ∨
        ready = true ∧ ∃ reason, (e.admission upload).flaw? = some reason ∧
          refusal = .invalidArgument reason) := by
  unfold refusal? at h
  cases hactive : e.isActive with
  | true =>
    rw [hactive] at h
    cases h
    exact .inl ⟨rfl, rfl⟩
  | false =>
    rw [hactive] at h
    refine .inr ⟨rfl, ?_⟩
    cases ready with
    | false =>
      cases h
      exact .inl ⟨rfl, rfl⟩
    | true =>
      obtain ⟨reason, hflaw, rfl⟩ := Option.map_eq_some_iff.1 h
      exact .inr ⟨rfl, reason, hflaw, rfl⟩

theorem isAdmission_of_refusal? (h : e.refusal? ready upload = some refusal) :
    refusal.isAdmission = true := by
  obtain ⟨-, rfl⟩ | ⟨-, ⟨-, rfl⟩ | ⟨-, reason, -, rfl⟩⟩ := refusal?_cases h <;> rfl

/-- An upload that is not refused is valid, and finds the slot free and the transport
ready. -/
theorem refusal?_eq_none_iff :
    (e.refusal? ready upload : Option (UploadError ε)) = none ↔
      e.isActive = false ∧ ready = true ∧ (e.admission upload).Valid := by
  unfold refusal?
  rw [Admission.valid_iff_flaw?]
  cases e.isActive with
  | true => exact iff_of_false (by rintro ⟨⟩) (by rintro ⟨⟨⟩, -⟩)
  | false =>
    cases ready with
    | false => exact iff_of_false (by rintro ⟨⟩) (by rintro ⟨-, ⟨⟩, -⟩)
    | true => exact Option.map_eq_none_iff.trans (by simp)

variable [Inspector ι] {t : Transport σ μ β ε} {link : σ}

/-- A refused upload is answered by its refusal. -/
theorem start_of_refusal? (h : e.refusal? (t.ready link).1 upload = some refusal) :
    (start t upload e link).result = .error refusal := by
  rcases refusal?_cases h with
    ⟨hactive, rfl⟩ | ⟨hfree, ⟨hready, rfl⟩ | ⟨hready, reason, hflaw, rfl⟩⟩
  · obtain ⟨s, hs⟩ := isActive_iff.1 hactive
    rw [start, hs]
  · rw [start_of_not_ready (session?_of_not_isActive hfree) hready]
  · have hsession : e.sessionOf upload = .error reason := by
      have hof := (e.admission upload).ofUpload_eq
      rw [hflaw] at hof
      exact hof
    rw [start_of_ready (session?_of_not_isActive hfree) hready, hsession]

/-- A request by an event is answered only if it fails. -/
theorem result_handle_request :
    (handle t (.admissionRequested upload) e link).result =
      match (start t upload e link).result with
      | .ok _ => none
      | .error failure => some (.error failure) := by
  rw [handle, Reaction.map]
  cases (start t upload e link).result <;> rfl

theorem result_start :
    (start t upload e link).result =
      match (handle t (.admissionRequested upload) e link).result with
      | some (.error failure) => .error failure
      | some (.ok _) | none => .ok () := by
  rw [result_handle_request]
  cases (start t upload e link).result <;> rfl

end Engine

/-! ## The first window -/

/-- The progress of a session that has sent its first window and had no answer yet. -/
theorem Admission.Runs.progress_of_unanswered {a : Admission} {s : Session} (h : a.Runs ∅ s)
    (hrest : ¬ s.window.CanSend) :
    s.progress.nextToSend.toNat = min a.limit.toNat a.blocks ∧
      s.progress.inFlight = min a.limit.toNat a.blocks ∧ s.progress.highestAcked = 0 ∧
      s.progress.ackedBytes = 0 := by
  have hnext : s.window.next.toNat = min a.limit.toNat a.blocks := by
    rw [h.next_eq_reach hrest, reach, Finset.card_empty, Nat.add_zero, total_eq_blocks, min_comm]
  have hsize := h.tracks.size_add_card
  have hbytes := h.pendingBytes_add
  rw [Finset.card_empty, Nat.add_zero] at hsize
  rw [Finset.sum_empty, Nat.add_zero] at hbytes
  refine ⟨hnext, hsize.trans hnext, UInt32.toNat_inj.1 h.tracks.highest_eq, ?_⟩
  show s.sentBytes - s.pendingBytes = 0
  rw [hbytes, Nat.sub_self]

namespace History.Sound

open Engine

variable [Inspector ι] {σ' : Type} {h : History ι σ'} {upload : Upload}

omit [Inspector ι] in
/-- Blocks are due with a request exactly if it is not refused. -/
theorem refusal?_of_due {ready : Bool} {a : Admission} {acked : Finset ℕ} {first : ℕ}
    (hdue : h.Due ready (.admissionRequested upload) a acked first) :
    (h.engine.refusal? ready upload : Option (UploadError ε)) = none := by
  cases hdue with
  | admission hfree hready hvalid => exact refusal?_eq_none_iff.2 ⟨hfree, hready, hvalid⟩

omit [Inspector ι] in
theorem due_of_refusal? {ready : Bool}
    (hnone : (h.engine.refusal? ready upload : Option (UploadError ε)) = none) :
    h.Due ready (.admissionRequested upload) (h.engine.admission upload) ∅ 0 := by
  obtain ⟨hfree, hready, hvalid⟩ := refusal?_eq_none_iff.1 hnone
  exact .admission hfree hready hvalid

/-- An upload that is not refused comes to what comes of handing over its first window. -/
theorem start_of_unrefused (hs : h.Sound) (t : Transport σ μ β ε) (link : σ)
    (hnone : (h.engine.refusal? (t.ready link).1 upload : Option (UploadError ε)) = none) :
    let a := h.engine.admission upload
    let r := start t upload h.engine link
    match a.handAll t 0 (min a.limit.toNat a.blocks) (t.ready link).2 with
    | .ok _ _ =>
      r.result = .ok () ∧ ∃ s, r.engine.session? = some s ∧ a.Runs ∅ s ∧ ¬ s.window.CanSend
    | .error failure _ => r.result = .error (.dispatch failure) := by
  intro a r
  have hdue := due_of_refusal? hnone
  have hhandle := hs.handle_of_due t link hdue
  have hcount : a.reach (∅ : Finset ℕ).card - 0 = min a.limit.toNat a.blocks := by
    rw [Admission.reach, Finset.card_empty, Nat.add_zero, Nat.sub_zero, Admission.total_eq_blocks,
      min_comm]
  have hasked : h.engine.asked t (.admissionRequested upload) link = (t.ready link).2 := by
    rw [asked, (refusal?_eq_none_iff.1 hnone).1]
    rfl
  rw [hcount, hasked] at hhandle
  dsimp only at hhandle
  cases hhanded : a.handAll t 0 (min a.limit.toNat a.blocks) (t.ready link).2 with
  | ok u link' =>
    rw [hhanded] at hhandle
    obtain ⟨hresult, ⟨s, hslot, hruns, hrest⟩, -⟩ := hhandle
    refine ⟨?_, s, congrArg Slot.session? hslot, hruns, hrest⟩
    show (start t upload h.engine link).result = _
    rw [result_start, hresult]
  | error failure link' =>
    rw [hhanded] at hhandle
    show (start t upload h.engine link).result = _
    rw [result_start, hhandle.1]
    rfl

/-- A refused upload makes no call but to ask whether the transport is ready. -/
theorem heard_of_refused (hs : h.Sound) (t : Transport σ μ β ε) (link : σ)
    {refusal : UploadError ε}
    (hrefusal : h.engine.refusal? (t.ready link).1 upload = some refusal) :
    ∀ x ∈ (start t.traced upload h.engine { link }).link.heard, x.call = .ready := by
  have hnone : ∀ a acked first,
      ¬ h.Due (t.ready link).1 (.admissionRequested upload) a acked first := by
    intro a acked first hdue
    cases hrefusal.symm.trans (refusal?_of_due hdue)
  have hlink : (start t.traced upload h.engine { link }).link =
      h.engine.asked t.traced (.admissionRequested upload) { link } :=
    (hs.handle_of_not_due t.traced { link } hnone).1
  rw [hlink, asked]
  cases Event.isRequest (.admissionRequested upload) && !h.engine.isActive with
  | false =>
    rintro x ⟨⟩
  | true =>
    intro x hx
    obtain rfl := List.mem_singleton.1 hx
    rfl

/-- An upload that is not refused asks for a message. -/
theorem heard_of_unrefused (hs : h.Sound) (t : Transport σ μ β ε) (link : σ)
    (hnone : (h.engine.refusal? (t.ready link).1 upload : Option (UploadError ε)) = none) :
    ∃ x ∈ (start t.traced upload h.engine { link }).link.heard,
      ∃ method token, x.call = .create method token := by
  obtain ⟨-, -, hvalid⟩ := refusal?_eq_none_iff.1 hnone
  obtain ⟨news, k, failure, hhears, hheard, -⟩ :=
    hs.exists_hears_of_due (t := t) { link := { link } } (due_of_refusal? hnone)
  have hcount : 0 < (h.engine.admission upload).reach (∅ : Finset ℕ).card - 0 := by
    have hlimit := hvalid.limit_pos
    have htotal := hvalid.total_pos
    unfold Admission.reach
    omega
  have hhead := hhears.head?_eq hcount
  rw [List.head?_map] at hhead
  obtain ⟨x, hx, hcall⟩ := Option.map_eq_some_iff.1 hhead
  have hlink : (start t.traced upload h.engine { link }).link.heard =
      [] ++ h.engine.heardAsked (.admissionRequested upload) ++ news := by
    rw [← hheard, ← Engine.start_over t.traced.ledgered_over upload h.engine { link := { link } }]
    rfl
  refine ⟨x, ?_, _, _, hcall⟩
  rw [hlink]
  exact List.mem_append_right _ (List.mem_of_mem_head? hx)

/-- The answer to a request: the first refusal that applies, or what comes of the first
window. -/
theorem result_start_eq (hs : h.Sound) (t : Transport σ μ β ε) (upload : Upload) (link : σ) :
    let a := h.engine.admission upload
    (start t upload h.engine link).result =
      match h.engine.refusal? (t.ready link).1 upload with
      | some refusal => .error refusal
      | none =>
        match a.handAll t 0 (min a.limit.toNat a.blocks) (t.ready link).2 with
        | .ok _ _ => .ok ()
        | .error failure _ => .error (.dispatch failure) := by
  intro a
  cases hrefusal : h.engine.refusal? (t.ready link).1 upload with
  | some refusal => exact start_of_refusal? hrefusal
  | none =>
    have hstart := hs.start_of_unrefused t link hrefusal
    dsimp only at hstart ⊢
    cases hhanded : a.handAll t 0 (min a.limit.toNat a.blocks) (t.ready link).2 with
    | ok u link' =>
      rw [hhanded] at hstart
      exact hstart.1
    | error failure link' =>
      rw [hhanded] at hstart
      exact hstart

/-- An upload that was admitted has its first window under way, and no answer yet. -/
theorem progress_of_start (hs : h.Sound) (t : Transport σ μ β ε) (link : σ)
    (hok : (start t upload h.engine link).result = .ok ()) :
    let a := h.engine.admission upload
    let window := min a.limit.toNat a.blocks
    ∃ p ∈ (start t upload h.engine link).engine.progress, p.nextToSend.toNat = window ∧
      p.inFlight = window ∧ p.highestAcked = 0 ∧ p.ackedBytes = 0 := by
  intro a window
  cases hrefusal : h.engine.refusal? (t.ready link).1 upload with
  | some refusal => cases (start_of_refusal? hrefusal).symm.trans hok
  | none =>
    have hstart := hs.start_of_unrefused t link hrefusal
    dsimp only at hstart
    cases hhanded : a.handAll t 0 window (t.ready link).2 with
    | error failure link' =>
      rw [hhanded] at hstart
      cases hstart.symm.trans hok
    | ok u link' =>
      rw [hhanded] at hstart
      obtain ⟨-, s, hsession, hruns, hrest⟩ := hstart
      exact ⟨s.progress, Option.map_eq_some_iff.2 ⟨s, hsession, rfl⟩,
        hruns.progress_of_unanswered hrest⟩

/-- An error is one of admission exactly if no message was asked for. -/
theorem isAdmission_iff_heard (hs : h.Sound) (t : Transport σ μ β ε) (link : σ)
    {failure : UploadError ε} (hfailure : (start t upload h.engine link).result = .error failure) :
    failure.isAdmission = true ↔
      ∀ x ∈ (start t.traced upload h.engine { link }).link.heard,
        ∀ method token, x.call ≠ .create method token := by
  cases hrefusal : h.engine.refusal? (t.ready link).1 upload with
  | some refusal =>
    cases (start_of_refusal? hrefusal).symm.trans hfailure
    refine iff_of_true (isAdmission_of_refusal? hrefusal) ?_
    intro x hx method token hcall
    cases (hs.heard_of_refused t link hrefusal x hx).symm.trans hcall
  | none =>
    obtain ⟨x, hx, method, token, hcall⟩ := hs.heard_of_unrefused t link hrefusal
    have hresult := hs.result_start_eq t upload link
    rw [hrefusal] at hresult
    dsimp only at hresult
    refine iff_of_false ?_ fun hnone => hnone x hx method token hcall
    cases hhanded : (h.engine.admission upload).handAll t 0 _ (t.ready link).2 with
    | ok u link' =>
      rw [hhanded] at hresult
      cases hresult.symm.trans hfailure
    | error failure' link' =>
      rw [hhanded] at hresult
      cases hresult.symm.trans hfailure
      rintro ⟨⟩

end History.Sound

/-- **A request is answered by the first reason that applies.**  After any run of a fresh
engine, on any transport and link, an upload is refused by the first refusal that applies;
if none does, the answer is what comes of handing over the blocks of the first window.  An
event that asks for the upload is answered with the error, if there is one.  An upload that
was admitted has its first window under way and nothing acknowledged.  An error is one of
admission exactly if no message was asked for. -/
theorem first_reason_reported [Inspector ι] {σ₀ μ₀ β₀ ε₀ : Type} (t₀ : Transport σ₀ μ₀ β₀ ε₀)
    (stream : WordStream) (config : Config) (inspector : ι) (link₀ : σ₀) (ops : List Operation)
    (t : Transport σ μ β ε) (upload : Upload) (link : σ) :
    let e := (Engine.after t₀ ops (Engine.ofStream stream config inspector) link₀).1
    let a := e.admission upload
    let window := min a.limit.toNat a.blocks
    let r := Engine.start t upload e link
    let traced := Engine.start t.traced upload e { link }
    a.config = config ∧
    r.result =
      (match e.refusal? (t.ready link).1 upload with
      | some refusal => .error refusal
      | none =>
        match a.handAll t 0 window (t.ready link).2 with
        | .ok _ _ => .ok ()
        | .error failure _ => .error (.dispatch failure)) ∧
    (Engine.handle t (.admissionRequested upload) e link).result =
      (match r.result with
      | .ok _ => none
      | .error failure => some (.error failure)) ∧
    (r.result = .ok () →
      ∃ p ∈ r.engine.progress, p.nextToSend.toNat = window ∧ p.inFlight = window ∧
        p.highestAcked = 0 ∧ p.ackedBytes = 0) ∧
    traced.through Traced.link = r ∧
    ∀ failure, r.result = .error failure →
      (failure.isAdmission = true ↔
        ∀ x ∈ traced.link.heard, ∀ method token, x.call ≠ .create method token) := by
  intro e a window r traced
  obtain ⟨h, hs, he⟩ : ∃ h : History ι σ₀, h.Sound ∧ h.engine = e :=
    ⟨_, (History.Sound.ofEngine rfl).run ops, congrArg Prod.fst (History.run_engine t₀ ops _)⟩
  have hconfig : e.config = config := Engine.config_after t₀ ops _ link₀
  clear_value e
  subst he
  exact ⟨hconfig, hs.result_start_eq t upload link, Engine.result_handle_request,
    hs.progress_of_start t link, Engine.start_over t.traced_over upload h.engine { link },
    fun _ => hs.isAdmission_iff_heard t link⟩

/-- After a cancelled upload the sample is admitted, with two of its three blocks under
way.  With nothing but slashes for a path, 17 octets in a block and no window it is refused
for the block size, before any message is asked for. -/
theorem first_reason_reported_sample :
    let e := (Engine.after .sink [.start .sample, .cancel] (Engine.new default ()) ()).1
    let r := Engine.start .sink .sample e ()
    let flawed : Upload :=
      { Upload.sample with path := "//", blockSize := some 17, window := some 0 }
    let refusal : UploadError Empty := .invalidArgument (.blockSize 17)
    r.result = .ok () ∧
      (∃ p ∈ r.engine.progress, p.nextToSend.toNat = 2 ∧ p.inFlight = 2 ∧ p.highestAcked = 0 ∧
        p.ackedBytes = 0) ∧
      (Engine.start .sink flawed e ()).result = .error refusal ∧
      ∀ x ∈ (Engine.start Transport.sink.traced flawed e { link := () }).link.heard,
        ∀ method token, x.call ≠ .create method token := by
  intro e r flawed refusal
  have hok : r.result = .ok () := by decide +kernel
  have hrefusal : e.refusal? (Transport.sink.ready ()).1 flawed = some refusal := by
    decide +kernel
  have hwindow : min (e.admission .sample).limit.toNat (e.admission .sample).blocks = 2 := by
    decide +kernel
  obtain ⟨-, -, -, hprogress, -⟩ := first_reason_reported .sink (.ofSeed 0) default () ()
    [.start .sample, .cancel] .sink .sample ()
  obtain ⟨-, -, -, -, -, hadmission⟩ := first_reason_reported .sink (.ofSeed 0) default ()
    () [.start .sample, .cancel] .sink flawed ()
  have hrefused : (Engine.start .sink flawed e ()).result = .error refusal :=
    Engine.start_of_refusal? hrefusal
  refine ⟨hok, ?_, hrefused, (hadmission refusal hrefused).1 rfl⟩
  rw [← hwindow]
  exact hprogress hok

end Blockwise
