import Mathlib.Data.List.DropRight
import Mathlib.Data.List.Nodup
import Blockwise.Proofs.Ledger
import Blockwise.Proofs.Slicing
import Blockwise.Proofs.Window
/-!
# What an admission settles

An upload, the configuration that it falls back to, and the token and the
generation that it is given, are all that a session is made of.  They are an
`Admission`, and they settle every message of the session before the first is
sent: `Admission.parcel` says what message number `i` is, without a session, a
window or a link.

**A session of an admission.**  `Admission.Runs` ties a session under way to its
admission and to the blocks that were acknowledged.  A round of the filling loop
keeps it (`Filling.Round.runs`), an acknowledgement adds a block to it
(`Admission.Runs.acknowledge`), and as long as it holds, the messages in the
ledger are the first of those that the admission settles
(`Filling.Sends.fill`).
-/

namespace Blockwise

/-! ## Paths that name something -/

namespace Path

theorem dropEnds_eq_nil_iff {cs : List Char} : dropEnds cs = [] ↔ ∀ c ∈ cs, IsSlash c := by
  unfold dropEnds
  rw [List.reverse_eq_nil_iff, List.dropWhile_eq_nil_iff]
  constructor
  · intro h
    -- What is left of a list of slashes, from the first other character on, is nothing.
    have hrest : cs.dropWhile (IsSlash ·) = [] := by
      rw [← List.dropWhile_idempotent]
      exact List.dropWhile_eq_nil_iff.2 fun c hc => h c (List.mem_reverse.2 hc)
    intro c hc
    simpa using List.dropWhile_eq_nil_iff.1 hrest c hc
  · intro h
    have hrest : cs.dropWhile (IsSlash ·) = [] :=
      List.dropWhile_eq_nil_iff.2 fun c hc => by simpa using h c hc
    rw [hrest]
    intro c hc
    cases hc

/-- A path is empty without its slashes exactly when it has no other character. -/
theorem trim_ne_empty_iff {path : String} : trim path ≠ "" ↔ ∃ c ∈ path.toList, ¬ IsSlash c := by
  unfold trim
  rw [ne_eq, ← String.ofList_nil, String.ofList_inj, dropEnds_eq_nil_iff]
  push Not
  rfl

end Path

/-! ## Admissions -/

/-- What a session is made of. -/
structure Admission where
  config : Config
  upload : Upload
  token : Token
  generation : UInt32

namespace Admission

variable (a : Admission)

/-- The block size that the upload asks for, or else the configured one. -/
def size : Size := (a.upload.blockSize.bind Size.ofBytes?).getD a.config.pacing.size

def limit : UInt32 := a.upload.window.getD a.config.pacing.window

def method : Method := a.upload.method.getD a.config.method

/-- The number of blocks in the body. -/
def total : ℕ := a.size.blocksFor a.upload.body.size

/-- Every argument of the upload is acceptable. -/
structure Valid : Prop where
  /-- The path has a character that is no slash. -/
  path_ne : ∃ c ∈ a.upload.path.toList, ¬ Path.IsSlash c
  /-- There is something to send. -/
  body_ne : a.upload.body.size ≠ 0
  /-- A block size that is asked for is permitted. -/
  size_permitted : ∀ bytes ∈ a.upload.blockSize, ∃ size : Size, size.bytes = bytes
  /-- A block may be under way. -/
  limit_ne : a.limit ≠ 0
  /-- A block option can number the blocks. -/
  total_le : a.total ≤ Header.maxNum + 1

/-- The session with this window. -/
def session (window : Window) : Session where
  path := a.upload.target
  body := a.upload.body
  format := a.upload.format
  method := a.method
  size := a.size
  token := a.token
  generation := a.generation
  window

/-- The window in which nothing was sent yet. -/
def window : Window where
  total := UInt32.ofNat a.total
  limit := a.limit

/-- What goes with block `i` to the message layer. -/
def completion (i : ℕ) : Completion where
  token := a.token
  generation := a.generation
  num := UInt32.ofNat i

/-- The message that carries block `i`. -/
def parcel (i : ℕ) : Parcel where
  method := a.method
  token := a.token
  paths := [a.upload.target]
  format := a.upload.format
  header := some { num := UInt32.ofNat i, more := decide (i + 1 ≠ a.total), size := a.size }
  payload := Block.payloadAt a.upload.body a.size i
  completion := a.completion i

/-- The messages that carry the first `k` blocks. -/
def parcels (k : ℕ) : List Parcel := (List.range k).map a.parcel

variable {a}

theorem parcels_succ (k : ℕ) : a.parcels (k + 1) = a.parcels k ++ [a.parcel k] := by
  unfold parcels
  rw [List.range_succ, List.map_append, List.map_singleton]

theorem length_parcels (k : ℕ) : (a.parcels k).length = k := by
  unfold parcels
  rw [List.length_map, List.length_range]

/-- Put together, the payloads of all messages are the body. -/
theorem assemble_parcels : assemble ((a.parcels a.total).map (·.payload)) = a.upload.body := by
  unfold parcels
  rw [List.map_map]
  exact assemble_all_payloads

theorem Valid.total_pos (h : a.Valid) : 0 < a.total := Size.blocksFor_pos h.body_ne

theorem Valid.limit_pos (h : a.Valid) : 0 < a.limit.toNat :=
  Nat.pos_of_ne_zero fun hzero => h.limit_ne (UInt32.toNat_inj.1 hzero)

theorem Valid.total_lt (h : a.Valid) : a.total < UInt32.size := by
  have hle := h.total_le
  have hmax : Header.maxNum + 1 < UInt32.size := by decide
  omega

theorem Valid.toNat_total (h : a.Valid) : a.window.total.toNat = a.total :=
  UInt32.toNat_ofNat_of_lt' h.total_lt

theorem mem_parcels {k : ℕ} {p : Parcel} : p ∈ a.parcels k ↔ ∃ i < k, a.parcel i = p := by
  unfold parcels
  simp only [List.mem_map, List.mem_range]

/-- The number that goes with a block is its own. -/
theorem Valid.toNat_num (h : a.Valid) {i : ℕ} (hi : i < a.total) :
    (a.parcel i).completion.num.toNat = i :=
  UInt32.toNat_ofNat_of_lt' (hi.trans h.total_lt)

/-- No two blocks go out in the same message. -/
theorem Valid.nodup_parcels (h : a.Valid) {k : ℕ} (hk : k ≤ a.total) : (a.parcels k).Nodup := by
  unfold parcels
  refine List.Nodup.map_on ?_ List.nodup_range
  intro i hi j hj hij
  rw [List.mem_range] at hi hj
  rw [← h.toNat_num (hi.trans_le hk), hij, h.toNat_num (hj.trans_le hk)]

theorem chooseSize_eq_ok_iff {size : Size} :
    Session.chooseSize a.upload a.config = .ok size ↔
      (∀ bytes ∈ a.upload.blockSize, ∃ size : Size, size.bytes = bytes) ∧ size = a.size := by
  unfold Session.chooseSize Admission.size
  cases hbytes : a.upload.blockSize with
  | none => simp [eq_comm]
  | some bytes =>
    cases hsize : Size.ofBytes? bytes with
    | none =>
      have hne : ∀ size : Size, size.bytes ≠ bytes := by
        intro size hsize'
        rw [Size.ofBytes?_eq_some_iff.2 hsize'] at hsize
        cases hsize
      simp [hsize, hne]
    | some size' =>
      have hpermitted : size'.bytes = bytes := Size.ofBytes?_eq_some_iff.1 hsize
      constructor
      · intro h
        obtain rfl : size' = size := by simpa [hsize] using h
        refine ⟨?_, by simp [hsize]⟩
        rintro _ ⟨⟩
        exact ⟨size', hpermitted⟩
      · rintro ⟨-, rfl⟩
        simp [hsize]

/-- A valid upload, and no other, has a session. -/
theorem ofUpload_eq_ok_iff {s : Session} :
    Session.ofUpload a.upload a.config a.token a.generation = .ok s ↔
      a.Valid ∧ s = a.session a.window := by
  rw [Session.ofUpload_eq_ok_iff]
  constructor
  · rintro ⟨size, hsize, hpath, hbody, hlimit, htotal, rfl⟩
    obtain ⟨hpermitted, rfl⟩ := chooseSize_eq_ok_iff.1 hsize
    exact ⟨⟨Path.trim_ne_empty_iff.1 hpath, hbody, hpermitted, hlimit, htotal⟩, rfl⟩
  · rintro ⟨h, rfl⟩
    exact ⟨a.size, chooseSize_eq_ok_iff.2 ⟨h.size_permitted, rfl⟩,
      Path.trim_ne_empty_iff.2 h.path_ne, h.body_ne, h.limit_ne, h.total_le, rfl⟩

/-! ## Sessions under way -/

/-- The session `s` is of this admission, and the blocks in `acked`, and no
others, were acknowledged. -/
structure Runs (a : Admission) (acked : Finset ℕ) (s : Session) : Prop where
  valid : a.Valid
  session_eq : s = a.session s.window
  total_eq : s.window.total = a.window.total
  limit_eq : s.window.limit = a.limit
  tracks : s.window.Tracks acked

namespace Runs

variable {acked : Finset ℕ} {s : Session} {num : UInt32} {b : Block}

theorem fresh (h : a.Valid) : a.Runs ∅ (a.session a.window) where
  valid := h
  session_eq := rfl
  total_eq := rfl
  limit_eq := rfl
  tracks := .fresh _ _

theorem toNat_total (h : a.Runs acked s) : s.window.total.toNat = a.total := by
  rw [h.total_eq]
  exact h.valid.toNat_total

/-- No more blocks were sent than there are. -/
theorem next_le (h : a.Runs acked s) : s.window.next.toNat ≤ a.total := by
  rw [← h.toNat_total]
  exact h.tracks.next_le

theorem one_le_limit (h : a.Runs acked s) : 1 ≤ s.window.limit.toNat := by
  rw [h.limit_eq]
  exact h.valid.limit_pos

/-- One past the greatest acknowledged block is a block still, as the last is never
acknowledged in favour of a further one. -/
theorem highest_lt_total (h : a.Runs acked s) : s.window.highest.toNat < s.window.total.toNat := by
  refine h.tracks.highest_lt_total ?_
  rw [h.toNat_total]
  exact h.valid.total_pos

/-- Fewer blocks were acknowledged than there are. -/
theorem card_lt_total (h : a.Runs acked s) : acked.card < a.total := by
  rw [← h.toNat_total]
  exact lt_of_le_of_lt h.tracks.card_le_highest h.highest_lt_total

/-- A session that waits, waits for something. -/
theorem size_inFlight_pos (h : a.Runs acked s) (hrest : ¬ s.window.CanSend) :
    0 < s.window.inFlight.size := by
  have hlimit := h.one_le_limit
  have hcard := h.card_lt_total
  have hadd := h.tracks.size_add_card
  have hnext := h.tracks.next_eq_of_not_canSend hrest
  rw [h.toNat_total] at hnext
  omega

theorem block?_eq (h : a.Runs acked s) (num : UInt32) :
    s.block? num = Block.cut? a.upload.body a.size num := by
  rw [h.session_eq]
  rfl

theorem exists_block? (h : a.Runs acked s) (hsend : s.window.CanSend) :
    ∃ b, s.block? s.window.next = some b := by
  have hlt := (h.tracks.canSend_iff.1 hsend).1
  rw [h.toNat_total] at hlt
  rw [h.block?_eq]
  exact ⟨_, Block.cut?_of_lt hlt⟩

/-- A block of the session goes out in the message that the admission settles. -/
theorem parcel_eq (h : a.Runs acked s) (hblock : s.block? num = some b) :
    s.parcel b = a.parcel num.toNat := by
  rw [h.block?_eq] at hblock
  have hlt : num.toNat < a.total := by
    refine Nat.not_le.1 fun hle => ?_
    rw [Block.cut?_eq_none_of_le hle] at hblock
    cases hblock
  rw [Block.cut?_of_lt hlt] at hblock
  cases hblock
  rw [h.session_eq]
  unfold Session.parcel Admission.parcel Session.completion Admission.completion
  rw [UInt32.ofNat_toNat]
  rfl

theorem dispatch (h : a.Runs acked s) (hsend : s.window.CanSend) :
    a.Runs acked { s with window := s.window.dispatch } where
  valid := h.valid
  session_eq := by
    rw [h.session_eq]
    rfl
  total_eq := h.total_eq
  limit_eq := h.limit_eq
  tracks := h.tracks.dispatch hsend

theorem acknowledge (h : a.Runs acked s) (hmem : num ∈ s.window.inFlight)
    (hlast : ¬ s.window.IsLast num) :
    a.Runs (insert num.toNat acked) { s with window := s.window.acknowledge num } where
  valid := h.valid
  session_eq := by
    rw [h.session_eq]
    rfl
  total_eq := h.total_eq
  limit_eq := h.limit_eq
  tracks := h.tracks.acknowledge hmem hlast

end Runs

end Admission

/-! ## Filling -/

namespace Filling

variable {ι σ μ β ε : Type} [Inspector ι] {t : Transport σ μ β ε} {a : Admission}
  {acked : Finset ℕ}

theorem Round.runs {x y : Filling ι σ} (h : Round t x y) (hx : a.Runs acked x.session) :
    a.Runs acked y.session := by
  obtain ⟨hsend, hblock, hdeliver⟩ := h
  exact hx.dispatch hsend

theorem Rounds.runs {x y : Filling ι σ} (h : Rounds t x y) (hx : a.Runs acked x.session) :
    a.Runs acked y.session :=
  h.invariant hx fun hx hround => hround.runs hx

omit [Inspector ι] in
/-- Where the loop ends well, no block may go out. -/
theorem Stops.not_canSend {x : Filling ι σ} {f : Filled ι σ ε} (h : Stops t x f)
    (hx : a.Runs acked x.session) (hresult : f.result = .ok ()) : ¬ x.session.window.CanSend := by
  cases h with
  | full hsend => exact hsend
  | exhausted hsend hblock =>
    -- As long as a block may go out, there is one.
    obtain ⟨b, hb⟩ := hx.exists_block? hsend
    cases hblock.symm.trans hb
  | failed => cases hresult

/-- The loop leaves a session of the same admission behind, which may send no more if all
went well. -/
theorem runs_fill {x : Filling ι σ} (hx : a.Runs acked x.session) :
    a.Runs acked (x.fill t).session ∧
      ((x.fill t).result = .ok () → ¬ (x.fill t).session.window.CanSend) := by
  obtain ⟨y, hrounds, hstops⟩ := exists_stops t x
  have hy : a.Runs acked y.session := hrounds.runs hx
  rw [hstops.session_eq]
  exact ⟨hy, hstops.not_canSend hy⟩

/-- The ledger holds `earlier`, and then the messages of all blocks that the
session has sent. -/
structure Sends (a : Admission) (acked : Finset ℕ) (earlier : List Parcel)
    (x : Filling ι (Ledgered σ)) : Prop where
  runs : a.Runs acked x.session
  taken_eq : x.link.taken = earlier ++ a.parcels x.session.window.next.toNat

variable {earlier : List Parcel}

theorem Sends.round {x y : Filling ι (Ledgered σ)} (hx : x.Sends a acked earlier)
    (h : Round t.ledgered x y) : y.Sends a acked earlier := by
  refine ⟨h.runs hx.runs, ?_⟩
  obtain ⟨b, hblock, htaken⟩ := h.taken_eq
  obtain ⟨hsend, -, -⟩ := h
  have hnext : x.session.window.dispatch.next.toNat = x.session.window.next.toNat + 1 :=
    Window.toNat_next_add_one hsend
  rw [htaken, hx.taken_eq, hx.runs.parcel_eq hblock, List.append_assoc, ← Admission.parcels_succ,
    ← hnext]
  rfl

/-- What the loop leaves behind: a session of the same admission, whose messages
so far are in the ledger, and which may send no more if all went well. -/
theorem Sends.fill {x : Filling ι (Ledgered σ)} (hx : x.Sends a acked earlier) :
    a.Runs acked (x.fill t.ledgered).session ∧
      (x.fill t.ledgered).link.taken =
        earlier ++ a.parcels (x.fill t.ledgered).session.window.next.toNat ∧
      ((x.fill t.ledgered).result = .ok () → ¬ (x.fill t.ledgered).session.window.CanSend) := by
  obtain ⟨hruns, hrests⟩ := runs_fill (t := t.ledgered) hx.runs
  refine ⟨hruns, ?_, hrests⟩
  obtain ⟨y, hrounds, hstops⟩ := exists_stops t.ledgered x
  have hy : y.Sends a acked earlier := hrounds.invariant hx Sends.round
  rw [hstops.session_eq, hstops.taken_eq]
  exact hy.taken_eq

/-- With what the loop adds to the ledger, the messages of the session are again
those of all blocks that it has sent. -/
theorem Sends.sent_append {x : Filling ι (Ledgered σ)} {sent : List Parcel}
    (hx : x.Sends a acked earlier) (htaken : x.link.taken = earlier ++ sent) :
    sent ++ (x.fill t.ledgered).link.taken.drop x.link.taken.length =
      a.parcels (x.fill t.ledgered).session.window.next.toNat := by
  obtain ⟨news, hnews⟩ := taken_prefix_fill (t := t) x
  obtain ⟨-, htaken', -⟩ := hx.fill (t := t)
  rw [← hnews, htaken, List.append_assoc] at htaken'
  rw [← hnews, List.drop_left]
  exact List.append_cancel_left htaken'

end Filling

end Blockwise
