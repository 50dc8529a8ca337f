import Mathlib.Algebra.Order.Floor.Div
import Blockwise.Proofs.Accepting
/-!
# What an engine sends, and how much of it is out

Two properties of every run of one engine, whatever is asked of it, whatever is
reported to it, and whatever the transport refuses.

**The window is safe** (`window_safety`).  Between two operations the counters
of an active session stand to each other, to the blocks that are out and to the
blocks that were acknowledged, as `Session.Safe` says.  While the session sends,
the window holds after every single block: in each state that `Session.fill` goes
through until it stops.

**Nothing is skipped, repeated or lost** (`sent_sequence`).  The messages that
were taken for a session are those of its first blocks, in order, with all that
the upload and the configuration say of them.

Both are read off `History.Sound`: what an engine does on the way from one
operation to the next is in `Blockwise.Proofs.History`.
-/

namespace Blockwise

variable {ι σ μ β ε : Type} [Inspector ι]

/-! ## The window -/

/-- How the window of a session stands, after the blocks in `acked`, and no
others, were acknowledged. -/
structure Session.Safe (s : Session) (acked : Finset ℕ) : Prop where
  one_le_limit : 1 ≤ s.window.limit.toNat
  one_le_total : 1 ≤ s.window.total.toNat
  /-- The number of blocks is the length of the body divided by the block size,
  rounded up. -/
  total_eq : s.window.total.toNat = s.body.size ⌈/⌉ s.size.bytes
  total_le : s.window.total.toNat ≤ 2 ^ 20
  highest_le_next : s.window.highest.toNat ≤ s.window.next.toNat
  next_le_total : s.window.next.toNat ≤ s.window.total.toNat
  highest_lt_total : s.window.highest.toNat < s.window.total.toNat
  /-- Only what was sent is out. -/
  lt_next : ∀ {num}, num ∈ s.window.inFlight → num.toNat < s.window.next.toNat
  /-- Whatever lies between the two counters is out. -/
  mem_inFlight : ∀ {num : UInt32}, s.window.highest.toNat ≤ num.toNat →
    num.toNat < s.window.next.toNat → num ∈ s.window.inFlight
  /-- Of what was sent, the acknowledged blocks, and no others, are not out. -/
  not_mem_inFlight_iff : ∀ {num : UInt32}, num.toNat < s.window.next.toNat →
    (num ∉ s.window.inFlight ↔ num.toNat ∈ acked)
  outstanding_le_size : s.window.next.toNat - s.window.highest.toNat ≤ s.window.inFlight.size
  size_le_limit : s.window.inFlight.size ≤ s.window.limit.toNat

theorem Size.blocksFor_eq_ceilDiv (size : Size) (len : ℕ) :
    size.blocksFor len = len ⌈/⌉ size.bytes := by
  rw [Nat.ceilDiv_eq_add_pred_div]
  rfl

/-- A session under way is safe. -/
theorem Admission.Runs.safe {a : Admission} {acked : Finset ℕ} {s : Session}
    (h : a.Runs acked s) : s.Safe acked where
  one_le_limit := h.one_le_limit
  one_le_total := by
    rw [h.toNat_total]
    exact h.valid.total_pos
  total_eq := by
    rw [h.toNat_total, h.session_eq]
    exact Size.blocksFor_eq_ceilDiv _ _
  total_le := by
    rw [h.toNat_total]
    exact h.valid.total_le
  highest_le_next := h.tracks.highest_le_next
  next_le_total := h.tracks.next_le
  highest_lt_total := h.highest_lt_total
  lt_next hmem := (h.tracks.mem_inFlight_iff.1 hmem).1
  mem_inFlight := h.tracks.mem_inFlight_of_highest_le
  not_mem_inFlight_iff := by
    intro num hlt
    rw [h.tracks.mem_inFlight_iff, not_and, not_not]
    exact ⟨fun hmem => hmem hlt, fun hmem _ => hmem⟩
  outstanding_le_size := h.tracks.outstanding_le_size
  size_le_limit := h.tracks.size_le

omit [Inspector ι] in
/-- What enters the filling loop in a run is a session under way. -/
theorem History.Sound.runs_of_enters {t : Transport σ μ β ε} {h : History ι σ} (hs : h.Sound)
    {event : Event} {x : Filling ι σ}
    (henters : Engine.Enters t h.engine h.link.link event x) :
    ∃ (a : Admission) (acked : Finset ℕ), a.Runs acked x.session := by
  cases event with
  | admissionRequested upload => exact ⟨_, _, henters.runs_of_admission⟩
  | blockAckReceived c =>
    obtain ⟨s, howner, -, -, hruns⟩ := henters.runs_of_ack
    obtain ⟨r, rest, -, hdrives⟩ := hs.drives (Engine.owner?_eq_some_iff.1 howner).1
    exact ⟨_, _, hruns hdrives.runs⟩
  | transferApplied c code => cases henters
  | blockRejected c code => cases henters
  | blockTimedOut c => cases henters
  | cancelled => cases henters

/-- **Window safety.**  In every state between two operations in which a session
is active it is safe, and in every state of the filling loop entered from there,
at most as many blocks are out as the window allows.  The loop is that of
`Session.fill`: it stops in one of these states, and goes on to the same end from
each of them. -/
theorem window_safety (t : Transport σ μ β ε) (stream : WordStream) (config : Config)
    (inspector : ι) (link : σ) (ops : List Operation) :
    let fresh := Engine.ofStream stream config inspector
    let state := Engine.after t ops fresh link
    let h := (History.ofEngine fresh link).run t ops
    (∀ s, state.1.session? = some s →
      ∃ r ∈ h.records.head?, s = r.admission.session s.window ∧ s.Safe r.acked) ∧
    ∀ event x, Engine.Enters t state.1 state.2 event x →
      (∀ y, Filling.Rounds t x y →
        y.session.window.inFlight.size ≤ y.session.window.limit.toNat ∧
        y.session.fill t y.inspector y.link y.notices =
          x.session.fill t x.inspector x.link x.notices) ∧
      ∃ y, Filling.Rounds t x y ∧
        Filling.Stops t y (x.session.fill t x.inspector x.link x.notices) := by
  intro fresh state h
  have hs : h.Sound := (History.Sound.ofEngine rfl).run ops
  have hstate : (h.engine, h.link.link) = state := History.run_engine t ops _
  rw [← hstate]
  constructor
  · intro s hactive
    obtain ⟨r, rest, hrecords, hdrives⟩ := hs.drives hactive
    rw [hrecords]
    exact ⟨r, rfl, hdrives.runs.session_eq, hdrives.runs.safe⟩
  · intro event x henters
    refine ⟨fun y hrounds => ?_, Filling.exists_stops t x⟩
    obtain ⟨a, acked, hruns⟩ := hs.runs_of_enters henters
    exact ⟨(hrounds.runs hruns).tracks.size_le, hrounds.fill_eq.symm⟩

/-- Right after the sample was started there is a session, and it is safe.  When its
first block is acknowledged the third goes out, and the window of two blocks is full
again within the loop. -/
theorem window_safety_sample :
    let fresh := Engine.new default ()
    let h := (History.ofEngine fresh ()).run .sink [.start .sample]
    let state := Engine.after .sink [.start .sample] fresh ()
    let c := (fresh.admission .sample).completion 0
    ∃ s, state.1.session? = some s ∧
      (∃ r ∈ h.records.head?, s = r.admission.session s.window ∧ s.Safe r.acked) ∧
      ∃ x y, Engine.Enters .sink state.1 state.2 (.blockAckReceived c) x ∧
        Filling.Round .sink x y ∧ x.session.window.inFlight.size = 1 ∧
        y.session.window.inFlight.size = 2 ∧ y.session.window.limit = 2 ∧
        y.session.window.inFlight.size ≤ y.session.window.limit.toNat ∧
        ∃ z, Filling.Rounds .sink x z ∧
          Filling.Stops .sink z (x.session.fill .sink x.inspector x.link x.notices) := by
  intro fresh h state c
  obtain ⟨hsafe, hloop⟩ := window_safety .sink (.ofSeed 0) default () () [.start .sample]
  have hsession : (state.1.owner? c).any (fun s =>
      decide (¬ s.window.IsLast c.num ∧ (s.window.acknowledge c.num).CanSend ∧
        (s.block? s.window.next).isSome ∧ (s.window.acknowledge c.num).inFlight.size = 1 ∧
        (s.window.acknowledge c.num).dispatch.inFlight.size = 2 ∧ s.window.limit = 2)) = true := by
    decide +kernel
  obtain ⟨s, howner, hfacts⟩ := (Option.any_eq_true _ _).1 hsession
  obtain ⟨hlast, hsend, hblock, hone, htwo, hlimit⟩ := of_decide_eq_true hfacts
  obtain ⟨b, hb⟩ := Option.isSome_iff_exists.1 hblock
  have hactive : state.1.session? = some s := (Engine.owner?_eq_some_iff.1 howner).1
  have henters : Engine.Enters Transport.sink state.1 state.2 (.blockAckReceived c) _ :=
    .acknowledgement howner hlast
  have hround : Filling.Round Transport.sink (state.1.advancing s c.num state.2) _ :=
    .sent hsend hb rfl
  obtain ⟨hwindow, hstops⟩ := hloop _ _ henters
  exact ⟨s, hactive, hsafe s hactive, _, _, henters, hround, hone, htwo, hlimit,
    (hwindow _ (.single hround)).1, hstops⟩

/-! ## The messages -/

/-- A message says that more follow exactly when its block is not the last by
the count of the window. -/
theorem Admission.Valid.more_parcel_iff {a : Admission} (h : a.Valid) {i : ℕ} (hi : i < a.total) :
    (a.parcel i).more = true ↔ ¬ a.window.IsLast (UInt32.ofNat i) := by
  have hnum : (UInt32.ofNat i).toNat = i := UInt32.toNat_ofNat_of_lt' (hi.trans h.total_lt)
  rw [Window.isLast_iff (by rwa [hnum, h.toNat_total]), hnum, h.toNat_total]
  exact decide_eq_true_iff

/-- **No gap, no repeat, no loss.**  The messages that were taken are those that
were taken for the sessions, one session after the other.  For each session they
are, in order and once each, those of its first `k` blocks, for some `k`; if
these are all blocks, the payloads put together are the body.  An active session
is the latest, and its `k` is the number of the next block. -/
theorem sent_sequence (t : Transport σ μ β ε) (stream : WordStream) (config : Config)
    (inspector : ι) (link : σ) (ops : List Operation) :
    let fresh := Engine.ofStream stream config inspector
    let h := (History.ofEngine fresh link).run t ops
    h.link.taken = h.records.reverse.flatMap Record.sent ∧
    (∀ r ∈ h.records, r.admission.config = config ∧
      ∃ k ≤ r.admission.total, r.sent = (List.range k).map r.admission.parcel ∧
        (∀ i < k, (r.admission.parcel i).more = true ↔
          ¬ r.admission.window.IsLast (UInt32.ofNat i)) ∧
        (k = r.admission.total → assemble (r.sent.map (·.payload)) = r.admission.upload.body)) ∧
    ∀ s, (Engine.after t ops fresh link).1.session? = some s →
      ∃ r ∈ h.records.head?, s = r.admission.session s.window ∧
        s.window.total = r.admission.window.total ∧ r.sent.length = s.window.next.toNat := by
  intro fresh h
  have hs : h.Sound := (History.Sound.ofEngine rfl).run ops
  have hstate : (h.engine, h.link.link) = Engine.after t ops fresh link :=
    History.run_engine t ops _
  have hconfig : h.engine.config = config := by
    have hafter := Engine.config_after t ops fresh link
    rw [← hstate] at hafter
    exact hafter
  rw [← hstate]
  refine ⟨hs.taken_eq, ?_, ?_⟩
  · intro r hr
    obtain ⟨⟨hvalid, k, hk, hsent⟩, hrconfig⟩ := hs.record_sound r hr
    refine ⟨hrconfig.trans hconfig, k, hk, hsent, ?_, ?_⟩
    · intro i hi
      exact hvalid.more_parcel_iff (lt_of_lt_of_le hi hk)
    · rintro rfl
      rw [hsent]
      exact Admission.assemble_parcels
  · intro s hactive
    obtain ⟨r, rest, hrecords, hdrives⟩ := hs.drives hactive
    rw [hrecords]
    refine ⟨r, rfl, hdrives.runs.session_eq, hdrives.runs.total_eq, ?_⟩
    rw [hdrives.sent_eq, Admission.length_parcels]

/-- The sample sends its three blocks, the last one after an acknowledgement, and is given
up; started again, it sends the first two. -/
theorem sent_sequence_sample :
    let fresh := Engine.new default ()
    let c := (fresh.admission .sample).completion 0
    let ops : List Operation :=
      [.start .sample, .complete c (some .continued), .cancel, .start .sample]
    let h := (History.ofEngine fresh ()).run .sink ops
    ∃ A B : Record, h.records = [B, A] ∧ h.link.taken = A.sent ++ B.sent ∧
      A.sent = (List.range 3).map A.admission.parcel ∧
      assemble (A.sent.map (·.payload)) = A.admission.upload.body ∧
      B.sent = (List.range 2).map B.admission.parcel ∧
      ∃ s, (Engine.after .sink ops fresh ()).1.session? = some s ∧ s.window.next.toNat = 2 := by
  intro fresh c ops h
  obtain ⟨htaken, hsent, hactive⟩ := sent_sequence .sink (.ofSeed 0) default () () ops
  have hcounts : h.records.map (fun r => (r.sent.length, r.admission.total)) = [(2, 3), (3, 3)] := by
    decide +kernel
  obtain ⟨A, B, hrecords, hB, hA⟩ := Record.exists_pair_of_map hcounts
  obtain ⟨hlengthA, htotalA⟩ := Prod.mk.inj hA
  obtain ⟨hlengthB, -⟩ := Prod.mk.inj hB
  have hmem : A ∈ h.records ∧ B ∈ h.records := by simp [hrecords]
  have hhead : h.records.head? = some B := congrArg List.head? hrecords
  obtain ⟨-, k, -, hsentA, -, hbody⟩ := hsent A hmem.1
  obtain ⟨-, k', -, hsentB, -⟩ := hsent B hmem.2
  obtain rfl : k = 3 := by rw [← hlengthA, hsentA, List.length_map, List.length_range]
  obtain rfl : k' = 2 := by rw [← hlengthB, hsentB, List.length_map, List.length_range]
  obtain ⟨s, hs⟩ : ∃ s, (Engine.after .sink ops fresh ()).1.session? = some s :=
    Option.isSome_iff_exists.1 (by decide +kernel)
  obtain ⟨r, hr, -, -, hnext⟩ := hactive s hs
  obtain rfl : B = r := Option.some.inj (hhead.symm.trans hr)
  refine ⟨A, B, hrecords, ?_, hsentA, hbody htotalA.symm, hsentB, s, hs, hnext ▸ hlengthB⟩
  have htaken' : h.link.taken = h.records.reverse.flatMap Record.sent := htaken
  rw [htaken', hrecords]
  simp

end Blockwise
