import Mathlib.Data.Nat.Nth
import Mathlib.Order.Filter.EventuallyConst
import Blockwise.Message.Octets
import Blockwise.Proofs.Tokens
/-!
# Draws and runs of equal words

A draw passes over every word that repeats the token before.  So of a run of equal words
in the stream only the first makes a token, and the tokens of a source are its stream with
every run collapsed to one word.

**The collapsed stream.**  A run starts at position 0 and at every position whose word
differs from the one before (`RunStart`).  The word at place `n` of the collapsed stream is
the one at which run `n` starts (`collapse`).

**The loop of a draw.**  As the source is written, a draw searches no further than its
stream promises a change.  `Search` is the loop without that limit.  It ends in every state
that a source comes to, where the next run starts.

**Abreast of the runs.**  What every draw preserves is that the token issued last is that
of the word right before the position, and that as many runs have started before the
position as tokens were issued (`Source.Abreast`).

**Who draws.**  In a run of an engine each attempt at an admission draws once, that is each
request that finds the slot free and the message layer ready, whatever becomes of it
(`Engine.source_after`).
-/

namespace Blockwise

/-! ## The collapsed stream -/

/-- A run of equal words starts at position `i`. -/
def RunStart (word : ℕ → UInt32) (i : ℕ) : Prop := i = 0 ∨ word (i - 1) ≠ word i

instance (word : ℕ → UInt32) : DecidablePred (RunStart word) := fun i => by
  unfold RunStart
  infer_instance

/-- The stream with every run of equal words collapsed to one word. -/
noncomputable def collapse (word : ℕ → UInt32) (n : ℕ) : UInt32 := word (Nat.nth (RunStart word) n)

/-- The token of the word right before a position. -/
def preceding (word : ℕ → UInt32) : ℕ → Option Token
  | 0 => none
  | i + 1 => some (Token.ofWord (word i))

theorem runStart_iff {word : ℕ → UInt32} {i : ℕ} :
    RunStart word i ↔ some (Token.ofWord (word i)) ≠ preceding word i := by
  cases i with
  | zero => simp [RunStart, preceding]
  | succ i => simp [RunStart, preceding, Token.ofWord_inj, eq_comm]

/-- Between the starts of two runs the words are those of the first. -/
theorem eq_of_not_runStart {word : ℕ → UInt32} {i j : ℕ} (hij : i ≤ j)
    (hruns : ∀ k, i < k → k ≤ j → ¬ RunStart word k) : word j = word i := by
  induction j, hij using Nat.le_induction with
  | base => rfl
  | succ j hij ih =>
    have hsame : word j = word (j + 1) := by
      by_contra hne
      exact hruns (j + 1) (Nat.lt_succ_of_le hij) (Nat.le_refl _) (.inr hne)
    rw [← hsame, ih fun k hk hkj => hruns k hk (Nat.le_succ_of_le hkj)]

/-- A stream that never settles is one that a source can draw from. -/
theorem exists_wordStream {word : ℕ → UInt32}
    (hword : ¬ Filter.EventuallyConst word Filter.atTop) :
    ∃ stream : WordStream, stream.word = word := by
  have hchanges : ∀ i, ∃ d, word (i + d) ≠ word i := by
    intro i
    by_contra! hconst
    refine hword (Filter.eventuallyConst_atTop.2 ⟨i, fun j hij => ?_⟩)
    obtain ⟨d, rfl⟩ := Nat.exists_eq_add_of_le hij
    exact hconst d
  choose reach hreach using hchanges
  exact ⟨⟨word, reach, fun i => ⟨reach i, Nat.le_refl _, hreach i⟩⟩, rfl⟩

/-- The octets of the token of a word are its base-256 digits, the lowest first. -/
theorem octets_ofWord (w : UInt32) :
    (Token.ofWord w).octets = (Octets.digits 4 w.toNat).reverse := by
  simp [Token.ofWord, Octets.digits, ← UInt8.toNat_inj]

namespace Source

/-! ## The loop of a draw -/

/-- The loop of a draw, without any limit: from position `i` on it passes over the words
that would make the token `last`, and ends at position `j` with the first that does
not. -/
inductive Search (word : ℕ → UInt32) (last : Option Token) : (i j : ℕ) → Prop
  | found {i : ℕ} (hne : some (Token.ofWord (word i)) ≠ last) : Search word last i i
  | passed {i j : ℕ} (heq : some (Token.ofWord (word i)) = last)
      (hrest : Search word last (i + 1) j) : Search word last i j

namespace Search

variable {word : ℕ → UInt32} {last : Option Token} {i j j' : ℕ}

theorem unique (h : Search word last i j) (h' : Search word last i j') : j = j' := by
  induction h with
  | found hne =>
    cases h' with
    | found hne' => rfl
    | passed heq hrest => exact absurd heq hne
  | passed heq hrest ih =>
    cases h' with
    | found hne => exact absurd heq hne
    | passed heq' hrest' => exact ih hrest'

/-- The loop passes over words that repeat the token until it meets one that does not. -/
theorem of_passed (hij : i ≤ j) (hne : some (Token.ofWord (word j)) ≠ last)
    (heq : ∀ k, i ≤ k → k < j → some (Token.ofWord (word k)) = last) : Search word last i j := by
  -- By induction on the number of words that are passed over.
  obtain ⟨d, rfl⟩ := Nat.exists_eq_add_of_le hij
  induction d generalizing i with
  | zero => exact .found hne
  | succ d ih =>
    have hshift : i + (d + 1) = i + 1 + d := by omega
    rw [hshift] at hne heq ⊢
    refine .passed (heq i (Nat.le_refl i) (by omega)) (ih (by omega) hne fun k hk hkj => ?_)
    exact heq k (Nat.le_of_succ_le hk) hkj

end Search

theorem le_nextPosition (s : Source) : s.position ≤ s.nextPosition := le_seek _ _

/-- The loop of a draw ends, where the source looks. -/
theorem search_nextPosition (s : Source) :
    Search s.stream.word s.last s.position s.nextPosition :=
  .of_passed s.le_nextPosition s.next_ne_last fun _ => eq_last_of_lt_seek

/-! ## Abreast of the runs -/

/-- The source has issued one token for each of the first `n` runs of the stream, and has
issued last the token of the word right before its position. -/
structure Abreast (stream : WordStream) (n : ℕ) (s : Source) : Prop where
  stream_eq : s.stream = stream
  last_eq : s.last = preceding stream.word s.position
  count_eq : Nat.count (RunStart stream.word) s.position = n

namespace Abreast

variable {stream : WordStream} {n : ℕ} {s : Source}

/-- While a draw passes over words, the last token is also that of the word right
before. -/
theorem last_eq_of_le (hs : Abreast stream n s) {j : ℕ} (hle : s.position ≤ j)
    (hj : j ≤ s.nextPosition) : s.last = preceding stream.word j := by
  obtain ⟨rfl, hlast, -⟩ := hs
  cases Nat.eq_or_lt_of_le hle with
  | inl heq => exact heq ▸ hlast
  | inr hlt =>
    -- The word right before was passed over in this draw.
    obtain ⟨k, rfl⟩ := Nat.exists_eq_succ_of_ne_zero (Nat.ne_of_gt (Nat.zero_lt_of_lt hlt))
    exact (eq_last_of_lt_seek (Nat.le_of_lt_succ hlt) hj).symm

/-- A draw ends at the start of a run. -/
theorem runStart (hs : Abreast stream n s) : RunStart stream.word s.nextPosition := by
  have hlast := hs.last_eq_of_le s.le_nextPosition (Nat.le_refl _)
  obtain ⟨rfl, -, -⟩ := hs
  rw [runStart_iff, ← hlast]
  exact s.next_ne_last

/-- A draw passes over no start of a run. -/
theorem not_runStart (hs : Abreast stream n s) {j : ℕ} (hle : s.position ≤ j)
    (hj : j < s.nextPosition) : ¬ RunStart stream.word j := by
  have hlast := hs.last_eq_of_le hle (Nat.le_of_lt hj)
  obtain ⟨rfl, -, -⟩ := hs
  rw [runStart_iff, not_not, ← hlast]
  exact eq_last_of_lt_seek hle hj

theorem count_nextPosition (hs : Abreast stream n s) :
    Nat.count (RunStart stream.word) s.nextPosition = n := by
  obtain ⟨d, hd⟩ := Nat.exists_eq_add_of_le s.le_nextPosition
  have hpassed : Nat.count (fun k => RunStart stream.word (s.position + k)) d = 0 :=
    Nat.count_iff_forall_not.2 fun k hk => hs.not_runStart (Nat.le_add_right _ _) (by omega)
  rw [hd, Nat.count_add, hpassed, Nat.add_zero, hs.count_eq]

/-- A draw ends where the next run starts. -/
theorem nextPosition_eq (hs : Abreast stream n s) :
    s.nextPosition = Nat.nth (RunStart stream.word) n := by
  rw [← Nat.nth_count hs.runStart, hs.count_nextPosition]

theorem search_iff (hs : Abreast stream n s) {j : ℕ} :
    Search stream.word s.last s.position j ↔ j = Nat.nth (RunStart stream.word) n := by
  have hsearch := s.search_nextPosition
  rw [hs.nextPosition_eq, hs.stream_eq] at hsearch
  constructor
  · exact fun h => h.unique hsearch
  · rintro rfl
    exact hsearch

theorem token_eq (hs : Abreast stream n s) :
    s.next.1 = Token.ofWord (collapse stream.word n) := by
  rw [collapse, ← hs.nextPosition_eq, ← hs.stream_eq]
  rfl

/-- What one draw preserves. -/
theorem next (hs : Abreast stream n s) : Abreast stream (n + 1) s.next.2 where
  stream_eq := hs.stream_eq
  last_eq := by
    rw [← hs.stream_eq]
    rfl
  count_eq := by
    show Nat.count _ (s.nextPosition + 1) = n + 1
    rw [Nat.count_succ, hs.count_nextPosition, if_pos hs.runStart]

theorem ofStream (stream : WordStream) : Abreast stream 0 (Source.ofStream stream) where
  stream_eq := rfl
  last_eq := rfl
  count_eq := rfl

/-- What holds after any number of draws. -/
theorem drop (stream : WordStream) (n : ℕ) :
    Abreast stream n ((Source.ofStream stream).drop n) := by
  induction n with
  | zero => exact .ofStream stream
  | succ n ih =>
    rw [drop_succ]
    exact ih.next

end Abreast

/-- The tokens of a source are its collapsed stream. -/
theorem token_ofStream (stream : WordStream) (n : ℕ) :
    (ofStream stream).token n = Token.ofWord (collapse stream.word n) :=
  (Abreast.drop stream n).token_eq

/-- The runs never end. -/
theorem infinite_runStart (stream : WordStream) : {i | RunStart stream.word i}.Infinite := by
  have hmem : ∀ n, ((ofStream stream).drop n).nextPosition ∈ {i | RunStart stream.word i} :=
    fun n => (Abreast.drop stream n).runStart
  refine Set.infinite_of_injective_forall_mem (fun m n hmn => ?_) hmem
  rw [← (Abreast.drop stream m).count_nextPosition, ← (Abreast.drop stream n).count_nextPosition]
  exact congrArg _ hmn

/-- A run lasts until the next one starts. -/
theorem eq_collapse (stream : WordStream) {n i : ℕ}
    (hle : Nat.nth (RunStart stream.word) n ≤ i)
    (hlt : i < Nat.nth (RunStart stream.word) (n + 1)) :
    stream.word i = collapse stream.word n := by
  refine eq_of_not_runStart hle fun k hk hki hstart => ?_
  exact Nat.not_le_of_lt hk (Nat.le_nth_of_lt_nth_succ (Nat.lt_of_le_of_lt hki hlt) hstart)

/-! ## All draws together -/

theorem take_go_eq (s : Source) (n : ℕ) (drawn : List Token) :
    take.go n s drawn = (drawn.reverse ++ (List.range n).map s.token, s.drop n) := by
  induction n generalizing s drawn with
  | zero => simp [take.go, drop]
  | succ n ih =>
    rw [take.go]
    dsimp only
    rw [ih, List.range_succ_eq_map, List.map_cons, List.map_map, List.reverse_cons,
      List.append_assoc]
    rfl

/-- The tokens that are drawn at once are those drawn one by one. -/
theorem take_eq (s : Source) (n : ℕ) : s.take n = ((List.range n).map s.token, s.drop n) :=
  s.take_go_eq n []

theorem last_drop (stream : WordStream) (n : ℕ) :
    ((ofStream stream).drop n).last = ((List.range n).map (ofStream stream).token).getLast? := by
  cases n with
  | zero => rfl
  | succ n =>
    rw [List.range_succ, List.map_append, List.map_singleton, List.getLast?_concat, drop_succ]
    rfl

/-- The tokens of the source are the words of the stream after every run of equal words is
collapsed to one word. -/
structure Collapses (s : Source) (word : ℕ → UInt32) : Prop where
  /-- There are infinitely many runs, so the collapsed stream has a word at every
  place. -/
  infinite_runStart : {i | RunStart word i}.Infinite
  /-- The loop of the draw after `n` others ends, and does so at the start of run `n`. -/
  search_iff : ∀ n j, Search word (s.take n).2.last (s.take n).2.position j ↔
    j = Nat.nth (RunStart word) n
  /-- The first `n` tokens are the first `n` words of the collapsed stream, each as four
  octets with the lowest first. -/
  take_octets : ∀ n, (s.take n).1.map (·.octets) =
    (List.range n).map fun i => (Octets.digits 4 (collapse word i).toNat).reverse
  /-- Every token has the length of a drawn one. -/
  length_octets : ∀ n, ∀ τ ∈ (s.take n).1, τ.octets.length = Token.drawnLength
  /-- No two tokens in a row are the same. -/
  chain : ∀ n, (s.take n).1.IsChain (· ≠ ·)
  /-- No word is passed over but those that repeat the first of their run. -/
  eq_collapse : ∀ n i, Nat.nth (RunStart word) n ≤ i → i < Nat.nth (RunStart word) (n + 1) →
    word i = collapse word n
  /-- The last token is the one drawn most recently, and there is none before the
  first draw. -/
  last_eq : ∀ n, (s.take n).2.last = (s.take n).1.getLast?

theorem collapses_ofStream (stream : WordStream) : (ofStream stream).Collapses stream.word where
  infinite_runStart := infinite_runStart stream
  search_iff n j := by
    rw [take_eq]
    exact (Abreast.drop stream n).search_iff
  take_octets n := by
    rw [take_eq, List.map_map]
    refine List.map_congr_left fun i _ => ?_
    rw [Function.comp_apply, token_ofStream, octets_ofWord]
  length_octets n := by
    rw [take_eq]
    intro τ hτ
    obtain ⟨i, -, rfl⟩ := List.mem_map.1 hτ
    rw [token_ofStream]
    exact Token.length_octets_ofWord _
  chain n := by
    rw [take_eq, List.isChain_map, List.isChain_range]
    exact fun i _ => ((ofStream stream).token_succ_ne i).symm
  eq_collapse n i := eq_collapse stream
  last_eq n := by
    rw [take_eq]
    exact last_drop stream n

end Source

/-! ## Who draws in a run -/

variable {ι σ μ β ε : Type}

namespace Engine

/-- The event is an attempt at an admission: it asks for an upload, and finds the slot free
and the message layer ready. -/
def IsAttempt (t : Transport σ μ β ε) (event : Event) (e : Engine ι) (link : σ) : Prop :=
  event.isRequest = true ∧ e.isActive = false ∧ (t.ready link).1 = true

instance (t : Transport σ μ β ε) (event : Event) (e : Engine ι) (link : σ) :
    Decidable (IsAttempt t event e link) := by
  unfold IsAttempt
  infer_instance

theorem IsAttempt.of_enters {t : Transport σ μ β ε} {e : Engine ι} {link : σ} {upload : Upload}
    {x : Filling ι σ} (henters : Enters t e link (.admissionRequested upload) x) :
    IsAttempt t (.admissionRequested upload) e link := by
  obtain ⟨hfree, hready, -⟩ := henters
  exact ⟨rfl, not_isActive_of_session? hfree, hready⟩

variable [Inspector ι]

/-- How many operations of a run are attempts at an admission. -/
def attempts (t : Transport σ μ β ε) : List Operation → Engine ι → σ → ℕ
  | [], _, _ => 0
  | op :: ops, e, link =>
    let r := perform t op e link
    (if IsAttempt t op.event e link then 1 else 0) + attempts t ops r.engine r.link

/-- An attempt draws one token, and nothing else draws any. -/
theorem source_handle (t : Transport σ μ β ε) (event : Event) (e : Engine ι) (link : σ) :
    (handle t event e link).engine.source =
      e.source.drop (if IsAttempt t event e link then 1 else 0) := by
  have hcourse := handle_course t event e link
  generalize handle t event e link = r at hcourse ⊢
  cases hcourse with
  -- A request that finds the slot taken or the message layer not ready draws nothing.
  | busy hactive =>
    rw [if_neg fun h => absurd (isActive_of_session? hactive) (Bool.eq_false_iff.1 h.2.1)]
    rfl
  | disconnected hfree hready =>
    rw [if_neg fun h => absurd h.2.2 (Bool.eq_false_iff.1 hready)]
    rfl
  -- Any other request draws a token, also one that is refused for an argument.
  | invalid hfree hready hsession =>
    rw [if_pos ⟨rfl, not_isActive_of_session? hfree, hready⟩]
    rfl
  | admitted henters hfill hresult =>
    rw [if_pos (.of_enters henters)]
    rfl
  | aborted henters hfill hresult =>
    rw [if_pos (.of_enters henters)]
    rfl
  -- What is left is no request.
  | ignored hcompletion howner =>
    have hrequest := Event.not_isRequest_of_completion? hcompletion
    rw [if_neg fun h => absurd h.1 (Bool.eq_false_iff.1 hrequest)]
    rfl
  | _ =>
    rw [if_neg fun h => Bool.false_ne_true h.1]
    rfl

theorem source_perform (t : Transport σ μ β ε) (op : Operation) (e : Engine ι) (link : σ) :
    (perform t op e link).engine.source =
      e.source.drop (if IsAttempt t op.event e link then 1 else 0) := by
  rw [perform_eq]
  exact source_handle t op.event e link

/-- A run draws one token for each attempt. -/
theorem source_after (t : Transport σ μ β ε) (ops : List Operation) (e : Engine ι) (link : σ) :
    (after t ops e link).1.source = e.source.drop (attempts t ops e link) := by
  induction ops generalizing e link with
  | nil => rfl
  | cons op ops ih => rw [after, ih, source_perform, attempts, Source.drop_add]

end Engine

namespace History

variable {t : Transport σ μ β ε} {h h' : History ι σ}

/-- At most one session is added at a time, and it is the latest. -/
theorem Draw.admissions_eq {refused : Bool} (hdraw : Draw h h' refused) :
    h'.admissions = h.admissions ∨
      ∃ upload, h'.admissions = h.engine.admission upload :: h.admissions := by
  cases hdraw with
  | refused hsource hadmissions => exact .inl hadmissions
  | admitted hsource hadmissions => exact .inr ⟨_, hadmissions⟩
  | none hsource hadmissions => exact .inl hadmissions

variable [Inspector ι]

/-- After the operations of `before`, which admitted the sessions `earlier`, the operation
`op` admits a session that is made of `a`. -/
structure AdmitsAt (t : Transport σ μ β ε) (h : History ι σ) (before : List Operation)
    (op : Operation) (a : Admission) (earlier : List Admission) : Prop where
  before_eq : (h.run t before).admissions = earlier
  after_eq : (h.run t (before ++ [op])).admissions = a :: earlier
  admission_eq : ∃ upload, a = (h.run t before).engine.admission upload

/-- Every session was admitted by some operation of the run. -/
theorem exists_admitsAt (hfresh : h.admissions = []) {ops : List Operation}
    {later earlier : List Admission} {a : Admission}
    (hrun : (h.run t ops).admissions = later ++ a :: earlier) :
    ∃ before op rest, ops = before ++ op :: rest ∧ h.AdmitsAt t before op a earlier := by
  induction ops using List.reverseRecOn generalizing later with
  | nil =>
    change h.admissions = _ at hrun
    rw [hfresh] at hrun
    cases later <;> cases hrun
  | append_singleton ops op ih =>
    -- What an operation of the shorter run admitted, it admits in this run, too.
    have hshorter : ∀ later', (h.run t ops).admissions = later' ++ a :: earlier →
        ∃ before op' rest, ops ++ [op] = before ++ op' :: rest ∧
          h.AdmitsAt t before op' a earlier := by
      intro later' hrun'
      obtain ⟨before, op', rest, rfl, hadmits⟩ := ih hrun'
      exact ⟨before, op', rest ++ [op], by rw [List.append_assoc, List.cons_append], hadmits⟩
    have hlast := hrun
    rw [run_concat] at hrun
    obtain hsame | ⟨upload, hcons⟩ := (step_draw t (h.run t ops) op).admissions_eq
    · exact hshorter later (hsame.symm.trans hrun)
    · cases later with
      | nil =>
        obtain ⟨ha, hearlier⟩ := List.cons.inj (hcons.symm.trans hrun)
        exact ⟨ops, op, [], rfl, hearlier, hlast, upload, ha.symm⟩
      | cons _ later => exact hshorter later (List.cons.inj (hcons.symm.trans hrun)).2

/-- The token of a session is the one that comes after as many others as there were attempts
at an admission before it. -/
theorem AdmitsAt.token_eq {before : List Operation} {op : Operation} {a : Admission}
    {earlier : List Admission} (hadmits : h.AdmitsAt t before op a earlier) :
    a.token = h.engine.source.token (h.engine.attempts t before h.link.link) := by
  obtain ⟨-, -, upload, rfl⟩ := hadmits
  have hengine : (h.run t before).engine = (Engine.after t before h.engine h.link.link).1 :=
    congrArg Prod.fst (run_engine t before h)
  show (h.run t before).engine.source.next.1 = _
  rw [hengine, Engine.source_after]
  rfl

end History

/-- **Tokens are the collapsed stream.**  A source can draw from every stream of words that
is not constant from some position on.  Whatever is known of how far ahead the stream
changes, the source collapses every run of equal words to one word: each draw ends, the
tokens are the words of the collapsed stream in order, and so no two in a row are the same
and nothing else is passed over.

In a run of an engine that draws from such a source every session was admitted by some
operation.  Its token, which all its messages bear and which the engine keeps while the
session is active, is the one of the collapsed stream at the place that counts the
attempts before this operation: the requests that found the slot free and the message layer
ready.

The source of a seed collapses the runs of its stream, which is the keystream of the seed for
a whole period of it. -/
theorem tokens_collapse_runs [Inspector ι] (t : Transport σ μ β ε) (word : ℕ → UInt32)
    (hword : ¬ Filter.EventuallyConst word Filter.atTop) (config : Config) (inspector : ι)
    (link : σ) :
    (∃ stream : WordStream, stream.word = word) ∧
      (∀ stream : WordStream, stream.word = word →
        (Source.ofStream stream).Collapses word ∧
        let e := Engine.ofStream stream config inspector
        let h := History.ofEngine e link
        ∀ ops later r earlier, (h.run t ops).records = later ++ r :: earlier →
          ∃ before op rest, ops = before ++ op :: rest ∧
            h.AdmitsAt t before op r.admission (earlier.map (·.admission)) ∧
            let τ := Token.ofWord (collapse word (e.attempts t before link))
            r.admission.token = τ ∧ (∀ p ∈ r.sent, p.token = τ) ∧
              (later = [] → ∀ s ∈ (h.run t ops).engine.session?, s.token = τ)) ∧
      ∀ seed, (Source.ofSeed seed).Collapses (WordStream.ofSeed seed).word ∧
        ∀ i < Keystream.period,
          (WordStream.ofSeed seed).word i = Keystream.word (Keystream.key seed) i := by
  refine ⟨exists_wordStream hword, ?_, fun seed =>
    ⟨Source.collapses_ofStream (.ofSeed seed), fun i => WordStream.word_ofSeed⟩⟩
  rintro stream rfl
  refine ⟨Source.collapses_ofStream stream, ?_⟩
  intro e h ops later r earlier hrecords
  have hsound : (h.run t ops).Sound := (History.Sound.ofEngine rfl).run ops
  have hadmissions : (h.run t ops).admissions =
      later.map (·.admission) ++ r.admission :: earlier.map (·.admission) := by
    rw [History.admissions, hrecords, List.map_append, List.map_cons]
  obtain ⟨before, op, rest, hops, hadmits⟩ := History.exists_admitsAt rfl hadmissions
  have htoken : r.admission.token = Token.ofWord (collapse stream.word (e.attempts t before link)) :=
    hadmits.token_eq.trans (Source.token_ofStream stream _)
  refine ⟨before, op, rest, hops, hadmits, htoken, ?_, ?_⟩
  · intro p hp
    rw [(hsound.record_sound r (by rw [hrecords]; simp)).1.token_of_mem hp, htoken]
  · rintro rfl s hs
    rw [(hsound.drives_of_records hs hrecords).runs.session_eq]
    exact htoken

/-- Every number twice, counted in 32 bits. -/
def WordStream.doubled : WordStream where
  word i := UInt32.ofNat (i / 2)
  reach _ := 2
  changes i := by
    refine ⟨2, Nat.le_refl 2, fun h => ?_⟩
    have := congrArg UInt32.toNat h
    simp only [UInt32.toNat_ofNat'] at this
    omega

/-- An upload is refused for its body, then the sample is started, given up and started
again: two attempts come before the last one, and its session has the third word of the
collapsed stream, which is the fifth of the stream. -/
theorem tokens_collapse_runs_sample :
    let word : ℕ → UInt32 := fun i => UInt32.ofNat (i / 2)
    let e := Engine.ofStream .doubled default ()
    let h := History.ofEngine e ()
    let first : List Operation := [.startEmpty, .start .sample, .cancel]
    ¬ Filter.EventuallyConst word Filter.atTop ∧ (Source.ofStream .doubled).Collapses word ∧
      e.attempts .sink first () = 2 ∧ collapse word 2 = 2 ∧
      ∃ A B, (h.run .sink (first ++ [.start .sample])).records = [] ++ B :: [A] ∧
        B.admission.token = Token.ofWord 2 ∧ B.sent.length = 2 ∧
        ∃ before op rest, first ++ [.start .sample] = before ++ op :: rest ∧
          h.AdmitsAt .sink before op B.admission [A.admission] ∧
          ∀ p ∈ B.sent, p.token = Token.ofWord (collapse word (e.attempts .sink before ())) := by
  intro word e h first
  have hword : ¬ Filter.EventuallyConst word Filter.atTop := by
    rw [Filter.eventuallyConst_atTop]
    rintro ⟨i, hconst⟩
    obtain ⟨d, -, hne⟩ := WordStream.doubled.changes i
    exact hne (hconst (i + d) (Nat.le_add_right i d))
  obtain ⟨hcollapses, hruns⟩ :=
    (tokens_collapse_runs .sink word hword default () ()).2.1 .doubled rfl
  have hthird : Nat.nth (RunStart word) 2 = 4 := Nat.nth_count (by decide : RunStart word 4)
  have hrecords : (h.run .sink (first ++ [.start .sample])).records.map
      (fun r => (r.admission.token, r.sent.length)) = [(Token.ofWord 2, 2), (Token.ofWord 1, 2)] := by
    decide +kernel
  obtain ⟨A, B, hrecords, hB, hA⟩ := Record.exists_pair_of_map hrecords
  obtain ⟨htoken, hlength⟩ := Prod.mk.inj hB
  obtain ⟨before, op, rest, hops, hadmits, -, hsent, -⟩ := hruns _ [] B [A] hrecords
  refine ⟨hword, hcollapses, by decide +kernel, ?_, A, B, hrecords, htoken, hlength, before, op,
    rest, hops, hadmits, hsent⟩
  rw [collapse, hthird]
  rfl

end Blockwise
