import Blockwise.Proofs.Course
/-!
# What a record of calls shows

On a recorded transport every call is entered into a record, the refused ones
included.  To hand over a block takes six calls (`Session.calls`), of which the last
sends the message; a call that is refused is the last one made
(`Session.deliver_recorded`).

**Handed over is not taken.**  `Recorded.handed` lists the completions of all messages
that the transport was asked to send, whether it took them or not.  Every one of them
comes from a state of the filling loop in which another block may go out, and is about
that block (`Engine.hands_handle`).
-/

namespace Blockwise

variable {ι σ μ β ε : Type}

/-- The calls that hand over a block of the session, as long as none is refused. -/
def Session.calls (s : Session) (b : Block) : List Call :=
  [.create s.method s.token, .setPath s.path, .setFormat s.format, .setBlock b.header,
    .setPayload b.payload, .send (s.completion b.header.num)]

/-- The completion that goes with the call, if it sends a message. -/
def Call.completion? : Call → Option Completion
  | send c => some c
  | ready | create .. | setPath _ | setFormat _ | setBlock _ | setPayload _ => none

/-- The completions of the messages that were handed over, taken or not, in order. -/
def Recorded.handed (l : Recorded σ) : List Completion := l.calls.toList.filterMap Call.completion?

/-- Handing over a block on the recorded transport is handing it over on the transport
itself; its calls, up to the first that is refused, are entered into the record. -/
theorem Session.deliver_recorded (s : Session) (t : Transport σ μ β ε) (b : Block)
    (l : Recorded σ) :
    match s.deliver t.recorded b l with
    | .ok _ l' => s.deliver t b l.link = .ok () l'.link ∧
        l'.calls.toList = l.calls.toList ++ s.calls b
    | .error e l' => s.deliver t b l.link = .error e l'.link ∧
        ∃ n, l'.calls.toList = l.calls.toList ++ (s.calls b).take n := by
  simp only [Session.deliver, Transport.fill, Transport.recorded, Recorded.note, bind,
    EStateM.bind, EStateM.adaptExcept]
  cases t.create s.method s.token l.link with
  | error e link => exact ⟨rfl, 1, by simp [Session.calls]⟩
  | ok message link =>
    dsimp only
    cases t.setPath s.path message link with
    | error e link => exact ⟨rfl, 2, by simp [Session.calls]⟩
    | ok message link =>
      dsimp only
      cases t.setFormat s.format message link with
      | error e link => exact ⟨rfl, 3, by simp [Session.calls]⟩
      | ok message link =>
        dsimp only
        cases t.setBlock b.header message link with
        | error e link => exact ⟨rfl, 4, by simp [Session.calls]⟩
        | ok message link =>
          dsimp only
          cases t.setPayload b.payload message link with
          | error e link => exact ⟨rfl, 5, by simp [Session.calls]⟩
          | ok message link =>
            dsimp only
            cases t.send message (s.completion b.header.num) link with
            | error e link => exact ⟨rfl, 6, by simp [Session.calls]⟩
            | ok u link => exact ⟨rfl, by simp [Session.calls]⟩

/-! ## What is handed over -/

namespace Recorded

/-- The link `l'` has its record from `l`, and what was handed over in between are
completions with this property. -/
def Hands (l l' : Recorded σ) (P : Completion → Prop) : Prop :=
  ∃ news, l'.handed = l.handed ++ news ∧ ∀ c ∈ news, P c

variable {l l' l'' : Recorded σ} {P Q : Completion → Prop}

theorem Hands.of_eq (h : l'.handed = l.handed) : l.Hands l' P :=
  ⟨[], by rw [h, List.append_nil], by rintro c ⟨⟩⟩

theorem Hands.trans (h : l.Hands l' P) (h' : l'.Hands l'' P) : l.Hands l'' P := by
  obtain ⟨news, hnews, hP⟩ := h
  obtain ⟨news', hnews', hP'⟩ := h'
  refine ⟨news ++ news', by rw [hnews', hnews, List.append_assoc], fun c hc => ?_⟩
  exact (List.mem_append.1 hc).elim (hP c) (hP' c)

theorem Hands.mono (h : l.Hands l' P) (hPQ : ∀ c, P c → Q c) : l.Hands l' Q := by
  obtain ⟨news, hnews, hP⟩ := h
  exact ⟨news, hnews, fun c hc => hPQ c (hP c hc)⟩

/-- Some of the calls that hand over a block hand over nothing else. -/
theorem hands_of_calls {s : Session} {b : Block} {calls : List Call}
    (hcalls : l'.calls.toList = l.calls.toList ++ calls) (hsub : calls.Sublist (s.calls b)) :
    l.Hands l' (· = s.completion b.header.num) := by
  refine ⟨calls.filterMap Call.completion?, ?_, fun c hc => ?_⟩
  · unfold handed
    rw [hcalls, List.filterMap_append]
  · have hmem : c ∈ (s.calls b).filterMap Call.completion? := (hsub.filterMap _).subset hc
    exact List.mem_singleton.1 hmem

end Recorded

section

variable {t : Transport σ μ β ε} {s : Session} {b : Block} {l l' : Recorded σ}

theorem Session.hands_deliver_ok (h : s.deliver t.recorded b l = .ok () l') :
    l.Hands l' (· = s.completion b.header.num) := by
  have hrecorded := s.deliver_recorded t b l
  rw [h] at hrecorded
  exact Recorded.hands_of_calls hrecorded.2 (List.Sublist.refl _)

theorem Session.hands_deliver_error {e : DispatchError ε}
    (h : s.deliver t.recorded b l = .error e l') :
    l.Hands l' (· = s.completion b.header.num) := by
  have hrecorded := s.deliver_recorded t b l
  rw [h] at hrecorded
  obtain ⟨-, n, hcalls⟩ := hrecorded
  exact Recorded.hands_of_calls hcalls (List.take_sublist _ _)

/-- The completion is that of the next block, which may go out. -/
def Session.Offers (s : Session) (c : Completion) : Prop :=
  s.window.CanSend ∧ c = s.completion s.window.next

namespace Filling

variable {x y : Filling ι (Recorded σ)}

theorem completion_next (hblock : x.session.block? x.session.window.next = some b) :
    x.session.completion b.header.num = x.session.completion x.session.window.next := by
  rw [Block.num_of_cut? hblock]

variable [Inspector ι]

/-- A round hands over the next block. -/
theorem Round.hands (h : Round t.recorded x y) : x.link.Hands y.link x.session.Offers := by
  obtain ⟨hsend, hblock, hdeliver⟩ := h
  refine (Session.hands_deliver_ok hdeliver).mono fun c hc => ⟨hsend, ?_⟩
  rw [hc, completion_next hblock]

omit [Inspector ι] in
/-- Where the loop stops, it may have handed over the next block in vain. -/
theorem Stops.hands {f : Filled ι (Recorded σ) ε} (h : Stops t.recorded x f) :
    x.link.Hands f.link x.session.Offers := by
  cases h with
  | full hsend => exact .of_eq rfl
  | exhausted hsend hblock => exact .of_eq rfl
  | failed hsend hblock hdeliver =>
    refine (Session.hands_deliver_error hdeliver).mono fun c hc => ⟨hsend, ?_⟩
    rw [hc, completion_next hblock]

/-- What the loop hands over are the next blocks of the states that it goes through. -/
theorem hands_fill (x : Filling ι (Recorded σ)) :
    x.link.Hands (x.fill t.recorded).link
      fun c => ∃ y, Rounds t.recorded x y ∧ y.session.Offers c := by
  obtain ⟨y, hrounds, hstops⟩ := exists_stops t.recorded x
  refine Recorded.Hands.trans ?_ (hstops.hands.mono fun c hc => ⟨y, hrounds, hc⟩)
  clear hstops
  induction hrounds with
  | refl => exact .of_eq rfl
  | tail hrounds hround ih => exact ih.trans (hround.hands.mono fun c hc => ⟨_, hrounds, hc⟩)

end Filling

end

namespace Engine

/-- To ask whether the transport is ready hands over nothing. -/
theorem handed_ready (t : Transport σ μ β ε) (l : Recorded σ) :
    (t.recorded.ready l).2.handed = l.handed := by
  show (l.calls.push Call.ready).toList.filterMap Call.completion? = _
  rw [Array.toList_push, List.filterMap_append]
  exact List.append_nil _

theorem Enters.handed_eq {t : Transport σ μ β ε} {e : Engine ι} {l : Recorded σ} {event : Event}
    {x : Filling ι (Recorded σ)} (h : Enters t.recorded e l event x) :
    x.link.handed = l.handed := by
  cases h with
  | admission hfree hready hsession => exact handed_ready t l
  | acknowledgement howner hlast => rfl

variable [Inspector ι]

/-- What an event makes the engine hand over are the next blocks of the states of the
filling loop, which it enters only where nothing is refused. -/
theorem hands_handle (t : Transport σ μ β ε) (event : Event) (e : Engine ι) (l : Recorded σ) :
    l.Hands (handle t.recorded event e l).link fun c =>
      (∃ x y, Enters t.recorded e l event x ∧ Filling.Rounds t.recorded x y ∧
        y.session.Offers c) ∧
      ∀ failure, (handle t.recorded event e l).result = some (.error failure) →
        failure.isAdmission = false := by
  have hcourse := handle_course t.recorded event e l
  generalize handle t.recorded event e l = r at hcourse ⊢
  have hfilled : ∀ {x f}, Enters t.recorded e l event x → x.fill t.recorded = f →
      l.Hands f.link fun c => ∃ x y, Enters t.recorded e l event x ∧
        Filling.Rounds t.recorded x y ∧ y.session.Offers c := by
    rintro x _ henters rfl
    refine Recorded.Hands.trans (.of_eq henters.handed_eq) (x.hands_fill.mono ?_)
    rintro c ⟨y, hrounds, hoffers⟩
    exact ⟨x, y, henters, hrounds, hoffers⟩
  cases hcourse with
  | busy hactive => exact .of_eq rfl
  | disconnected hfree _ => exact .of_eq (handed_ready t l)
  | invalid hfree _ hsession => exact .of_eq (handed_ready t l)
  | admitted henters hfill hresult =>
    exact (hfilled henters hfill).mono fun c hc => ⟨hc, by rintro failure ⟨⟩⟩
  | aborted henters hfill hresult =>
    exact (hfilled henters hfill).mono fun c hc => ⟨hc, by rintro failure ⟨⟩; rfl⟩
  | idle hfree => exact .of_eq rfl
  | cancelled hactive => exact .of_eq rfl
  | ignored hcompletion howner => exact .of_eq rfl
  | overrun howner hlast => exact .of_eq rfl
  | advanced henters hfill hresult =>
    exact (hfilled henters hfill).mono fun c hc => ⟨hc, by rintro failure ⟨⟩⟩
  | broken henters hfill hresult =>
    exact (hfilled henters hfill).mono fun c hc => ⟨hc, by rintro failure ⟨⟩; rfl⟩
  | applied howner => exact .of_eq rfl
  | rejected howner => exact .of_eq rfl
  | timedOut howner => exact .of_eq rfl

end Engine

end Blockwise
