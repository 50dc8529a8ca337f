import Mathlib.Data.List.Induction
import Mathlib.Data.List.Sort
import Blockwise.Proofs.Ledger
import Blockwise.Proofs.Posting
/-!
# What a message owes to the calls that set it

A message is made by calls of its four setters, in any order and any number.  Each setter
keeps to a place of its own: the path adds to what was set there before, and the others put
the new in place of the old.  So the calls of one setter decide its place, and in what
order they came among calls of the others is forgotten (`message_of_calls`).

**What the calls left.**  `Contents.ofCalls` says for every place what the calls put there,
without looking at a message, and `Contents.options` lists the options that a reader then
finds.  A message that `Holds` some contents is determined by them, and every call keeps it
holding what the calls so far left (`Message.Holds.set`).

**Whoever sets it.**  A transport has messages and setters of its own, which may refuse a
call.  If it `Builds` messages, the calls that it takes leave in the view of a message what
they leave here (`Transport.Builds.setAll`).
-/

namespace Blockwise

/-! ## Calls -/

/-- A call of one of the four setters. -/
inductive Setting where
  | path (path : String)
  | format (format : ContentFormat)
  | block (header : Header)
  | payload (payload : ByteArray)

namespace Setting

def path? : Setting → Option String
  | path p => some p
  | format _ | block _ | payload _ => none

def format? : Setting → Option ContentFormat
  | format f => some f
  | path _ | block _ | payload _ => none

def header? : Setting → Option Header
  | block h => some h
  | path _ | format _ | payload _ => none

def payload? : Setting → Option ByteArray
  | payload p => some p
  | path _ | format _ | block _ => none

end Setting

namespace Message

def set (m : Message) : Setting → Message
  | .path path => m.setPath path
  | .format format => m.setFormat format
  | .block header => m.setBlock header
  | .payload payload => m.setPayload payload

/-- The message after these calls, in order. -/
def setAll (m : Message) (calls : List Setting) : Message := calls.foldl set m

end Message

namespace Transport

variable {σ μ β ε : Type}

/-- The call on a message of the transport. -/
def set (t : Transport σ μ β ε) (m : μ) : Setting → EStateM β σ μ
  | .path path => t.setPath path m
  | .format format => t.setFormat format m
  | .block header => t.setBlock header m
  | .payload payload => t.setPayload payload m

/-- The message after these calls, in order; the first that is refused ends them. -/
def setAll (t : Transport σ μ β ε) (m : μ) (calls : List Setting) : EStateM β σ μ :=
  calls.foldlM t.set m

end Transport

namespace Contents

/-- What these calls leave on a request that had nothing set. -/
def ofCalls (method : Method) (token : Token) (calls : List Setting) : Contents where
  method
  token
  paths := calls.filterMap Setting.path?
  format := (calls.filterMap Setting.format?).getLast?
  header := (calls.filterMap Setting.header?).getLast?
  payload := (calls.filterMap Setting.payload?).getLast?.getD ByteArray.empty

/-- The occurrences of the path option: the segments of all paths, one path after the
other. -/
def pathValues (c : Contents) : List ByteArray :=
  c.paths.flatMap fun path => (Path.segments path).map String.toUTF8

/-- The options that are set, each with its occurrences, in the order of their numbers. -/
def options (c : Contents) : List (OptionNumber × List ByteArray) :=
  (if c.paths = [] then [] else [(11, c.pathValues)]) ++
    (c.format.map fun format => (12, [Octets.ofNat 2 format.number.toNat])).toList ++
    (c.header.map fun header => (27, [Block1.encode header])).toList

/-- The occurrences of one option, if it is set. -/
def option? (c : Contents) (n : OptionNumber) : Option (List ByteArray) :=
  if n = OptionNumber.block1 then c.header.map fun header => [Block1.encode header]
  else if n = OptionNumber.contentFormat then
    c.format.map fun format => [Octets.ofNat 2 format.number.toNat]
  else if n = OptionNumber.uriPath then if c.paths = [] then none else some c.pathValues
  else none

/-- The contents after one more call. -/
def set (c : Contents) : Setting → Contents
  | .path path => { c with paths := c.paths ++ [path] }
  | .format format => { c with format := some format }
  | .block header => { c with header := some header }
  | .payload payload => { c with payload }

theorem ofCalls_concat (method : Method) (token : Token) (calls : List Setting) (call : Setting) :
    ofCalls method token (calls ++ [call]) = (ofCalls method token calls).set call := by
  unfold ofCalls
  simp only [List.filterMap_append]
  cases call <;> simp [set, Setting.path?, Setting.format?, Setting.header?, Setting.payload?]

/-! What one more call does to each option. -/

theorem option?_setPath (c : Contents) (path : String) (n : OptionNumber) :
    (c.set (.path path)).option? n =
      if OptionNumber.uriPath = n then
        some (c.pathValues ++ (Path.segments path).map String.toUTF8)
      else c.option? n := by
  by_cases hn : OptionNumber.uriPath = n
  · subst hn
    show (if c.paths ++ [path] = [] then none else some (c.set (.path path)).pathValues) = _
    rw [if_neg (List.concat_ne_nil path c.paths), if_pos rfl]
    simp [pathValues, set]
  · rw [if_neg hn]
    simp only [option?, if_neg (Ne.symm hn)]
    rfl

theorem option?_setFormat (c : Contents) (format : ContentFormat) (n : OptionNumber) :
    (c.set (.format format)).option? n =
      if OptionNumber.contentFormat = n then some [Octets.ofNat 2 format.number.toNat]
      else c.option? n := by
  by_cases hn : OptionNumber.contentFormat = n
  · subst hn
    rfl
  · rw [if_neg hn]
    simp only [option?, if_neg (Ne.symm hn)]
    rfl

theorem option?_setBlock (c : Contents) (header : Header) (n : OptionNumber) :
    (c.set (.block header)).option? n =
      if OptionNumber.block1 = n then some [Block1.encode header] else c.option? n := by
  by_cases hn : OptionNumber.block1 = n
  · subst hn
    rfl
  · rw [if_neg hn]
    simp only [option?, if_neg (Ne.symm hn)]
    rfl

/-- The segments of the paths so far, where the path option is not there if no path is
set. -/
theorem getD_option?_uriPath (c : Contents) :
    (c.option? OptionNumber.uriPath).getD [] = c.pathValues := by
  show (if c.paths = [] then none else some c.pathValues).getD [] = _
  split
  · simp [pathValues, *]
  · rfl

theorem pairwise_options (c : Contents) : c.options.Pairwise (·.1 < ·.1) := by
  unfold options
  by_cases hpaths : c.paths = [] <;> cases c.format <;> cases c.header <;> simp [hpaths]

theorem mem_options_iff {c : Contents} {n : OptionNumber} {values : List ByteArray} :
    (n, values) ∈ c.options ↔ c.option? n = some values := by
  unfold options option? OptionNumber.block1 OptionNumber.contentFormat OptionNumber.uriPath
  by_cases hpaths : c.paths = [] <;> cases c.format <;> cases c.header <;> simp [hpaths] <;> grind

end Contents

/-! ## What a message holds -/

/-- The options of a message are listed by their numbers. -/
theorem Options.toList_eq {options : Options} {list : List (OptionNumber × List ByteArray)}
    (hsorted : list.Pairwise (·.1 < ·.1))
    (hmem : ∀ n values, (n, values) ∈ list ↔ options[n]? = some values) :
    options.toList = list := by
  have hsorted' : options.toList.Pairwise (·.1 < ·.1) :=
    options.ordered_keys_toList.imp fun h => Nat.compare_eq_lt.1 h
  have : Std.Antisymm fun a b : OptionNumber × List ByteArray => a.1 < b.1 :=
    ⟨fun _ _ h h' => absurd h (Nat.lt_asymm h')⟩
  have : Std.Irrefl fun a b : OptionNumber × List ByteArray => a.1 < b.1 :=
    ⟨fun _ => Nat.lt_irrefl _⟩
  refine hsorted'.eq_of_mem_iff hsorted fun ⟨n, values⟩ => ?_
  rw [hmem, Std.ExtTreeMap.mem_toList_iff_getElem?_eq_some]

namespace Message

/-- The message is a request on which this is set, and nothing else. -/
structure Holds (m : Message) (c : Contents) : Prop where
  kind_eq : m.kind = .confirmable
  id_eq : m.id = 0
  code_eq : m.code = c.method.code
  token_eq : m.token = c.token
  getElem?_options : ∀ n : OptionNumber, m.options[n]? = c.option? n
  payload_eq : m.payload = c.payload

namespace Holds

variable {m m' : Message} {c : Contents}

/-- A message is determined by what it holds. -/
theorem unique (h : m.Holds c) (h' : m'.Holds c) : m = m' := by
  have hoptions : m.options = m'.options :=
    Std.ExtTreeMap.ext_getElem? fun n => by rw [h.getElem?_options, h'.getElem?_options]
  obtain ⟨kind, id, code, token, options, payload⟩ := m
  obtain ⟨kind', id', code', token', options', payload'⟩ := m'
  cases h.kind_eq.trans h'.kind_eq.symm
  cases h.id_eq.trans h'.id_eq.symm
  cases h.code_eq.trans h'.code_eq.symm
  cases h.token_eq.trans h'.token_eq.symm
  cases h.payload_eq.trans h'.payload_eq.symm
  cases hoptions
  rfl

theorem toList_options (h : m.Holds c) : m.options.toList = c.options :=
  Options.toList_eq c.pairwise_options fun n _ => by rw [h.getElem?_options, Contents.mem_options_iff]

theorem request (method : Method) (token : Token) :
    (Message.request method token).Holds { method, token } where
  kind_eq := rfl
  id_eq := rfl
  code_eq := rfl
  token_eq := rfl
  getElem?_options n := by
    show (∅ : Options)[n]? = _
    rw [Std.ExtTreeMap.getElem?_empty]
    simp [Contents.option?]
  payload_eq := rfl

/-- A call keeps a message holding what the calls so far left. -/
theorem set (h : m.Holds c) (call : Setting) : (m.set call).Holds (c.set call) := by
  cases call with
  | path path =>
    refine ⟨h.kind_eq, h.id_eq, h.code_eq, h.token_eq, fun n => ?_, h.payload_eq⟩
    show (m.setPath path).options[n]? = _
    rw [getElem?_setPath, h.getElem?_options, h.getElem?_options, c.getD_option?_uriPath,
      c.option?_setPath]
  | format format =>
    refine ⟨h.kind_eq, h.id_eq, h.code_eq, h.token_eq, fun n => ?_, h.payload_eq⟩
    show (m.setFormat format).options[n]? = _
    rw [getElem?_setFormat, h.getElem?_options, c.option?_setFormat]
  | block header =>
    refine ⟨h.kind_eq, h.id_eq, h.code_eq, h.token_eq, fun n => ?_, h.payload_eq⟩
    show (m.setBlock header).options[n]? = _
    rw [getElem?_setBlock, h.getElem?_options, c.option?_setBlock]
  | payload payload =>
    exact ⟨h.kind_eq, h.id_eq, h.code_eq, h.token_eq, h.getElem?_options, rfl⟩

/-- After any calls, a message holds what they left. -/
theorem setAll (method : Method) (token : Token) (calls : List Setting) :
    ((Message.request method token).setAll calls).Holds (.ofCalls method token calls) := by
  induction calls using List.reverseRecOn with
  | nil => exact .request method token
  | append_singleton calls call ih =>
    rw [Message.setAll, List.foldl_append, Contents.ofCalls_concat]
    exact ih.set call

end Holds

end Message

namespace Transport.Builds

variable {σ μ β ε : Type} {t : Transport σ μ β ε} {view : μ → Message} {m m' : μ} {l l' : σ}

theorem set (hbuilds : t.Builds view) {call : Setting} (h : t.set m call l = .ok m' l') :
    view m' = (view m).set call := by
  cases call with
  | path path => exact hbuilds.setPath h
  | format format => exact hbuilds.setFormat h
  | block header => exact hbuilds.setBlock h
  | payload payload => exact hbuilds.setPayload h

/-- Where no call is refused, the view of the message is as the calls make it. -/
theorem setAll (hbuilds : t.Builds view) {calls : List Setting}
    (h : t.setAll m calls l = .ok m' l') : view m' = (view m).setAll calls := by
  induction calls generalizing m l with
  | nil =>
    cases h
    rfl
  | cons call calls ih =>
    rw [Transport.setAll, List.foldlM_cons] at h
    change EStateM.bind (t.set m call) (fun m => t.setAll m calls) l = _ at h
    unfold EStateM.bind at h
    cases hset : t.set m call l with
    | error e l₁ =>
      rw [hset] at h
      cases h
    | ok m₁ l₁ =>
      rw [hset] at h
      rw [ih h, hbuilds.set hset]
      rfl

end Transport.Builds

/-- **A message depends on what was set, and not on the order of setting different things.**
After any calls, a message that had nothing set is a request by this method under this token.
Its path option has the segments of all paths, in the order of the calls, its other options
and its payload are the last that were set, and what was not set is not there.  So two lists
of calls make the same message if those of each setter are the same in both.

The same message is seen on any transport that builds messages, if it takes the calls. -/
theorem message_of_calls (method : Method) (token : Token) (calls : List Setting) :
    let m := (Message.request method token).setAll calls
    (m.kind = .confirmable ∧ m.id = 0 ∧ m.code = method.code ∧ m.token = token) ∧
    m.options.toList =
      (if calls.filterMap Setting.path? = [] then []
        else [(11, (calls.filterMap Setting.path?).flatMap
          fun path => (Path.segments path).map String.toUTF8)]) ++
      ((calls.filterMap Setting.format?).getLast?.map
        fun format => (12, [Octets.ofNat 2 format.number.toNat])).toList ++
      ((calls.filterMap Setting.header?).getLast?.map
        fun header => (27, [Block1.encode header])).toList ∧
    m.payload = (calls.filterMap Setting.payload?).getLast?.getD ByteArray.empty ∧
    (∀ calls' : List Setting,
      calls'.filterMap Setting.path? = calls.filterMap Setting.path? →
      calls'.filterMap Setting.format? = calls.filterMap Setting.format? →
      calls'.filterMap Setting.header? = calls.filterMap Setting.header? →
      calls'.filterMap Setting.payload? = calls.filterMap Setting.payload? →
      (Message.request method token).setAll calls' = m) ∧
    ∀ {σ μ β ε : Type} {t : Transport σ μ β ε} {view : μ → Message}, t.Builds view →
      ∀ {m₀ m₁ : μ} {l₀ l₁ l₂ : σ}, t.create method token l₀ = .ok m₀ l₁ →
        t.setAll m₀ calls l₁ = .ok m₁ l₂ → view m₁ = m := by
  intro m
  have hm : m.Holds (.ofCalls method token calls) := .setAll method token calls
  refine ⟨⟨hm.kind_eq, hm.id_eq, hm.code_eq, hm.token_eq⟩, hm.toList_options, hm.payload_eq, ?_, ?_⟩
  · intro calls' hpaths hformats hheaders hpayloads
    have hsame : Contents.ofCalls method token calls' = Contents.ofCalls method token calls := by
      unfold Contents.ofCalls
      rw [hpaths, hformats, hheaders, hpayloads]
    have hm' := Message.Holds.setAll method token calls'
    rw [hsame] at hm'
    exact hm'.unique hm
  · intro σ μ β ε t view hbuilds m₀ m₁ l₀ l₁ l₂ hcreate hset
    rw [hbuilds.setAll hset, hbuilds.create hcreate]

/-- Two paths are set among other things, some of which are set again later; and a scripted
link makes the same message of it. -/
theorem message_of_calls_sample :
    let calls : List Setting := [.block ⟨7, true, ⟨4⟩⟩, .path "fw", .payload ⟨#[1]⟩, .format ⟨42⟩,
      .path "a//b", .block ⟨8, false, ⟨4⟩⟩, .payload ⟨#[2, 3]⟩]
    let calls' : List Setting := [.path "fw", .path "a//b", .format ⟨42⟩, .block ⟨7, true, ⟨4⟩⟩,
      .payload ⟨#[1]⟩, .payload ⟨#[2, 3]⟩, .block ⟨8, false, ⟨4⟩⟩]
    let m := (Message.request .put ∅).setAll calls
    m.options.toList = [(11, ["fw", "a", "", "b"].map String.toUTF8), (12, [⟨#[0, 42]⟩]),
      (27, [⟨#[0, 0, 0, 132]⟩])] ∧
    m.payload = ⟨#[2, 3]⟩ ∧ (Message.request .put ∅).setAll calls' = m ∧
    Link.transport.Builds Draft.message ∧
    ∃ (d d' : Draft) (l l' : Link), Link.transport.create .put ∅ {} = .ok d l ∧
      Link.transport.setAll d calls l = .ok d' l' ∧ d'.message = m := by
  intro calls calls' m
  obtain ⟨-, hoptions, hpayload, hsame, hbuilt⟩ := message_of_calls .put ∅ calls
  have hcreate : Link.transport.create .put ∅ {} = .ok _ _ := rfl
  have hset : Link.transport.setAll ⟨0, .request .put ∅⟩ calls { created := 1 } = .ok _ _ := rfl
  refine ⟨hoptions.trans ?_, hpayload, hsame calls' rfl rfl rfl rfl, Link.transport_builds,
    _, _, _, _, hcreate, hset, hbuilt Link.transport_builds hcreate hset⟩
  decide +kernel

end Blockwise
