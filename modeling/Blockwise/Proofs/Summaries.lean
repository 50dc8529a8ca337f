import Mathlib.Algebra.Group.Nat.Defs
import Mathlib.Data.List.Basic
import Blockwise.Block.Summary
import Blockwise.Notice
/-!
# Summaries are whole and tell blocks apart

The line that tells of a block has its summary from a buffer of 96 octets.  Whoever reads the
line relies on two things.

**Nothing is cut off.**  The numbers of a summary are at most two of 32 bits and two of 64
bits, so that it needs 95 octets at most (`Digest.utf8ByteSize_summary_le`), and a buffer that
has room for a text takes all its pieces (`TextBuffer.Holds.forM_ok`).

**Nothing is mistaken for another.**  A number ends where its digits end, so what is written
before a character that is no digit can be read back (`number_append_inj`); and after every
number of a summary there is one.
-/

namespace Blockwise

variable {β : Type}

/-! ## Numbers in decimal -/

section

variable {m n k : ℕ} {c : Char} {cs cs' : List Char}

theorem isDigit_of_mem_repr (h : c ∈ n.repr.toList) : c.isDigit = true := by
  rw [Nat.toList_repr] at h
  exact Nat.isDigit_of_mem_toDigits (by decide) (by decide) h

theorem utf8Size_of_isDigit (h : c.isDigit = true) : c.utf8Size = 1 := by
  rw [Char.isDigit_iff_toNat] at h
  rw [Char.utf8Size_eq_one_iff, UInt32.le_iff_toNat_le]
  exact Nat.le_trans h.2 (by decide)

/-- Text of digits has as many octets as digits. -/
theorem utf8ByteSize_ofList (h : ∀ c ∈ cs, c.isDigit = true) :
    (String.ofList cs).utf8ByteSize = cs.length := by
  induction cs with
  | nil => rfl
  | cons c cs ih =>
    obtain ⟨hc, hcs⟩ := List.forall_mem_cons.1 h
    rw [String.ofList_cons, String.utf8ByteSize_append, String.utf8ByteSize_singleton,
      utf8Size_of_isDigit hc, ih hcs, List.length_cons, Nat.add_comm]

/-- A number below `10 ^ k` is written in `k` octets. -/
theorem utf8ByteSize_repr_le (hk : 0 < k) (h : n < 10 ^ k) : n.repr.utf8ByteSize ≤ k := by
  have hsize := utf8ByteSize_ofList fun c (hc : c ∈ n.repr.toList) => isDigit_of_mem_repr hc
  rw [String.ofList_toList, String.length_toList] at hsize
  rw [hsize]
  exact (Nat.length_repr_le_iff hk).2 h

/-- A number can be read back from before a character that is no digit. -/
theorem number_append_inj (hc : c.isDigit = false)
    (h : m.repr.toList ++ c :: cs = n.repr.toList ++ c :: cs') : m = n ∧ cs = cs' := by
  -- The number is what comes before the first character that is no digit.
  have hread : ∀ (n : ℕ) (cs : List Char),
      (n.repr.toList ++ c :: cs).takeWhile Char.isDigit = n.repr.toList := by
    intro n cs
    rw [List.takeWhile_append_of_pos fun c hc => isDigit_of_mem_repr hc,
      List.takeWhile_cons_of_neg (by simp [hc]), List.append_nil]
  have hdigits : m.repr.toList = n.repr.toList := by rw [← hread m cs, h, hread]
  obtain rfl : m = n := by
    rw [Nat.toList_repr, Nat.toList_repr] at hdigits
    rw [← Nat.ofDigitChars_ten_toDigits (n := m), hdigits, Nat.ofDigitChars_ten_toDigits]
  exact ⟨rfl, (List.cons.inj (List.append_cancel_left h)).2⟩

end

/-! ## Buffers -/

/-- Pieces that together have room go into the buffer, all of them. -/
theorem TextBuffer.Holds.forM_ok {b : TextBuffer β} {capacity : ℕ} (hb : b.Holds capacity)
    {pieces : List String} {x : β}
    (h : (b.text x).utf8ByteSize + (String.join pieces).utf8ByteSize ≤ capacity) :
    ∃ x', forM pieces b.write x = .ok () x' ∧ b.text x' = b.text x ++ String.join pieces := by
  induction pieces generalizing x with
  | nil => exact ⟨x, rfl, by simp⟩
  | cons piece pieces ih =>
    rw [String.join_cons, String.utf8ByteSize_append] at h
    have hpiece : (b.text x).utf8ByteSize + piece.utf8ByteSize ≤ capacity := by omega
    obtain ⟨y, hwrite, htext⟩ := hb.write_ok hpiece
    have hroom : (b.text y).utf8ByteSize + (String.join pieces).utf8ByteSize ≤ capacity := by
      rw [htext, String.utf8ByteSize_append]
      omega
    obtain ⟨z, hrest, htext'⟩ := ih hroom
    refine ⟨z, ?_, ?_⟩
    · rw [List.forM_cons]
      show EStateM.bind (b.write piece) _ x = _
      rw [EStateM.bind, hwrite]
      exact hrest
    · rw [htext', htext, String.join_cons, String.append_assoc]

namespace Digest

variable {d d' : Digest} {total total' : UInt32}

/-! ## The length of a summary -/

/-- The numbers of the record fit into words, and the number of the block is not the last
of its words. -/
structure Bounded (d : Digest) : Prop where
  num_lt : d.num.toNat < 2 ^ 32 - 1
  offset_lt : d.offset < 2 ^ 64
  len_lt : d.len < 2 ^ 64

theorem utf8ByteSize_summary_le (h : d.Bounded) : (d.summary total).utf8ByteSize ≤ 95 := by
  have hword : ∀ w : UInt32, (toString w).utf8ByteSize ≤ 10 := fun w =>
    utf8ByteSize_repr_le (by decide) (Nat.lt_trans w.toNat_lt (by decide))
  have hlong : ∀ n < 2 ^ 64, (toString n).utf8ByteSize ≤ 20 := fun n hn =>
    utf8ByteSize_repr_le (by decide) (Nat.lt_trans hn (by decide))
  have hmore : (toString d.more).utf8ByteSize ≤ 5 := by cases d.more <;> decide
  have hnum := hword (d.num + 1)
  have htotal := hword total
  have hoffset := hlong d.offset h.offset_lt
  have hlen := hlong d.len h.len_lt
  have hwords : "block ".utf8ByteSize + "/".utf8ByteSize + " (offset=".utf8ByteSize +
      ", len=".utf8ByteSize + ", more=".utf8ByteSize + ")".utf8ByteSize = 30 := by decide
  rw [← join_pieces, pieces]
  simp only [String.join_cons, String.join_nil, String.utf8ByteSize_append,
    String.utf8ByteSize_empty]
  omega

/-- What is in a buffer of 96 octets, or more, is the summary as a whole. -/
theorem text_write {b : TextBuffer β} (hb : b.Holds summaryCapacity) (h : d.Bounded) :
    b.text (d.write b total) = d.summary total := by
  have hroom : (b.text b.empty).utf8ByteSize + (String.join (d.pieces total)).utf8ByteSize ≤
      summaryCapacity := by
    rw [hb.text_empty, join_pieces, String.utf8ByteSize_empty, Nat.zero_add]
    exact Nat.le_trans (utf8ByteSize_summary_le h) (by decide)
  obtain ⟨x, hwrite, htext⟩ := hb.forM_ok hroom
  rw [write, hwrite]
  dsimp only
  rw [htext, hb.text_empty, join_pieces, String.empty_append]

/-! ## Reading a summary -/

theorem toList_summary (d : Digest) (total : UInt32) :
    (d.summary total).toList =
      "block ".toList ++ ((d.num + 1).toNat.repr.toList ++ '/' :: (total.toNat.repr.toList ++
        ' ' :: ("(offset=".toList ++ (d.offset.repr.toList ++ ',' :: (" len=".toList ++
          (d.len.repr.toList ++ ',' :: (" more=".toList ++
            ((toString d.more).toList ++ [')'])))))))) := by
  have htotal : "/".toList = ['/'] := rfl
  have hoffset : " (offset=".toList = ' ' :: "(offset=".toList := rfl
  have hlen : ", len=".toList = ',' :: " len=".toList := rfl
  have hmore : ", more=".toList = ',' :: " more=".toList := rfl
  rw [← join_pieces, pieces]
  simp only [String.join_cons, String.join_nil, String.toList_append, String.toList_empty,
    List.append_nil, List.cons_append, List.nil_append, htotal, hoffset, hlen, hmore]
  rfl

/-- A summary tells which block it is about. -/
theorem summary_inj (h : d.summary total = d'.summary total') :
    d.num = d'.num ∧ total = total' ∧ d.offset = d'.offset ∧ d.len = d'.len ∧
      d.more = d'.more := by
  have hlist := congrArg String.toList h
  rw [toList_summary, toList_summary] at hlist
  obtain ⟨hnum, hlist⟩ := number_append_inj (by decide) (List.append_cancel_left hlist)
  obtain ⟨htotal, hlist⟩ := number_append_inj (by decide) hlist
  obtain ⟨hoffset, hlist⟩ := number_append_inj (by decide) (List.append_cancel_left hlist)
  obtain ⟨hlen, hlist⟩ := number_append_inj (by decide) (List.append_cancel_left hlist)
  have hmore := List.append_cancel_right (List.append_cancel_left hlist)
  refine ⟨?_, UInt32.toNat_inj.1 htotal, hoffset, hlen, ?_⟩
  · exact (UInt32.add_left_inj 1).1 (UInt32.toNat_inj.1 hnum)
  · revert hmore
    cases d.more <;> cases d'.more <;> decide

end Digest

/-- **Summaries are whole and tell blocks apart.**  Let buffers take every piece of text
for which 96 octets are room enough.  The summary of a block needs 95 octets at most, as long as
its numbers fit into words; the buffer then has the whole of it, and so has the line of the
log.  From what is in the buffer the number of the block can be told, and how many blocks there
are, and where it starts, how long it is and whether more follow; and so it can from the line. -/
theorem summaries_whole_and_distinct {b : TextBuffer β} (hb : b.Holds Digest.summaryCapacity) :
    (∀ (d : Digest) (total : UInt32), d.Bounded →
      (d.summary total).utf8ByteSize ≤ 95 ∧
      b.text (d.write b total) = d.summary total ∧
      (Notice.dispatched d total).text = "[Engine::fill] " ++ b.text (d.write b total)) ∧
    (∀ (d d' : Digest) (total total' : UInt32), d.Bounded → d'.Bounded →
      b.text (d.write b total) = b.text (d'.write b total') →
      d.num = d'.num ∧ total = total' ∧ d.offset = d'.offset ∧ d.len = d'.len ∧
        d.more = d'.more) ∧
    ∀ (d d' : Digest) (total total' : UInt32),
      (Notice.dispatched d total).text = (Notice.dispatched d' total').text →
      d.num = d'.num ∧ total = total' ∧ d.offset = d'.offset ∧ d.len = d'.len ∧
        d.more = d'.more := by
  refine ⟨fun d total h => ?_, fun d d' total total' h h' htext => ?_, fun d d' total total' htext => ?_⟩
  · refine ⟨Digest.utf8ByteSize_summary_le h, Digest.text_write hb h, ?_⟩
    rw [Digest.text_write hb h]
    rfl
  · rw [Digest.text_write hb h, Digest.text_write hb h'] at htext
    exact Digest.summary_inj htext
  · exact Digest.summary_inj ((String.append_right_inj "[Engine::fill] ").1 htext)

/-- The buffers whose text is all there is to them: a piece without room is left out. -/
def TextBuffer.bounded (capacity : ℕ) : TextBuffer String where
  empty := ""
  text := id
  write piece := fun text =>
    if text.utf8ByteSize + piece.utf8ByteSize ≤ capacity then .ok () (text ++ piece)
    else .error () text

theorem TextBuffer.bounded_holds (capacity : ℕ) : (bounded capacity).Holds capacity where
  text_empty := rfl
  write_ok h := ⟨_, if_pos h, rfl⟩

/-- The longest summary needs 95 octets, and tells its block from one a little further on. -/
theorem summaries_whole_and_distinct_sample :
    let d : Digest := ⟨0xFFFFFFFE, 2 ^ 64 - 1, 2 ^ 64 - 1, false, 0⟩
    let d' : Digest := ⟨0xFFFFFFFD, 2 ^ 64 - 1, 2 ^ 64 - 1, false, 0⟩
    let b := TextBuffer.bounded 96
    b.Holds Digest.summaryCapacity ∧ d.Bounded ∧ d'.Bounded ∧
      (d.summary 0xFFFFFFFF).utf8ByteSize = 95 ∧
      b.text (d.write b 0xFFFFFFFF) = d.summary 0xFFFFFFFF ∧
      b.text (d.write b 0xFFFFFFFF) ≠ b.text (d'.write b 0xFFFFFFFF) := by
  intro d d' b
  have hb : b.Holds Digest.summaryCapacity := TextBuffer.bounded_holds 96
  have hd : d.Bounded := ⟨by decide, by decide, by decide⟩
  have hd' : d'.Bounded := ⟨by decide, by decide, by decide⟩
  obtain ⟨hwhole, hdistinct, -⟩ := summaries_whole_and_distinct hb
  refine ⟨hb, hd, hd', by decide +kernel, (hwhole d _ hd).2.1, fun h => ?_⟩
  exact absurd (hdistinct d d' _ _ hd hd' h).1 (by decide)

end Blockwise
