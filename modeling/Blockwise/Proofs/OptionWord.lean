import Mathlib.Order.Monotone.Basic
import Blockwise.Proofs.Posting
/-!
# The block option as a word

A header is packed into one word, and a message carries the octets of this word.  The word
says of a header whatever the header says, as long as the block number has no more than 28
bits: it is read back, and headers compare as their words do.

**A word is a number of three digits.**  Its low four bits are a digit of base 16 under the
block number, and these are the flag over a digit of base 8, the exponent.  Numbers compare
as their digits do, the highest first (`compare_digits`), which is how headers compare
(`Header.compare_value`).

**Nothing else is a word of a header.**  The exponent 7 names no size, and any word with
another exponent is the word of what is read from it (`Block1.value_ofNumber`).

**Whoever sets it.**  The block option is set by a transport, in messages of its own.  All
that is asked of it is that it `Builds` messages: in the view of a message the octets are
those of the word, whatever the transport keeps in their place.
-/

namespace Blockwise

/-! ## Comparing numbers -/

/-- A strictly monotone function keeps the order of two numbers. -/
theorem compare_map {f : ℕ → ℕ} (hf : StrictMono f) (x y : ℕ) :
    compare (f x) (f y) = compare x y := by
  simp only [compare, compareOfLessAndEq, hf.lt_iff_lt, hf.injective.eq_iff]

/-- Numbers of two digits compare as the digits do, the high one first. -/
theorem compare_digits {b x y x' y' : ℕ} (hy : y < b) (hy' : y' < b) :
    compare (b * x + y) (b * x' + y') = (compare x x').then (compare y y') := by
  -- A high digit that is less by one outweighs any low digit.
  have hstep : ∀ {x x'}, x < x' → b * x + b ≤ b * x' := fun {x x'} h => by
    rw [← Nat.mul_succ]
    exact Nat.mul_le_mul_left b h
  rcases Nat.lt_trichotomy x x' with h | rfl | h
  · have hle := hstep h
    rw [Nat.compare_eq_lt.2 h, Nat.compare_eq_lt.2 (by omega)]
    rfl
  · rw [Nat.compare_eq_eq.2 rfl]
    exact compare_map (fun _ _ h => Nat.add_lt_add_left h _) y y'
  · have hle := hstep h
    rw [Nat.compare_eq_gt.2 h, Nat.compare_eq_gt.2 (by omega)]
    rfl

theorem compare_toNat (v w : UInt32) : compare v.toNat w.toNat = compare v w := by
  simp only [compare, compareOfLessAndEq, UInt32.lt_iff_toNat_lt, ← UInt32.toNat_inj]

/-! ## Headers and their words -/

namespace Size

theorem strictMono_bytes : StrictMono fun szx : ℕ => 1 <<< (szx + 4) := by
  intro x y h
  dsimp only
  rw [Nat.one_shiftLeft, Nat.one_shiftLeft]
  exact Nat.pow_lt_pow_right (by decide) (Nat.add_lt_add_right h 4)

/-- Sizes compare as their numbers of octets do. -/
theorem compare_bytes (s t : Size) : compare s.bytes t.bytes = compare s t := by
  have hsize : compare s t = (compare s.szx.val t.szx.val).then .eq := rfl
  rw [hsize, Ordering.then_eq]
  exact compare_map strictMono_bytes _ _

end Size

namespace Header

variable {h h' : Header}

/-- Headers compare by the number, then by the flag, then by the size. -/
theorem compare_eq (h h' : Header) :
    compare h h' =
      (compare h.num h'.num).then ((compare h.more h'.more).then (compare h.size h'.size)) := by
  show (compare h.num h'.num).then
    ((compare h.more h'.more).then ((compare h.size h'.size).then .eq)) = _
  rw [Ordering.then_eq]

theorem lowBits_eq (h : Header) : h.lowBits = 8 * h.more.toNat + h.size.szx.val := by
  unfold lowBits
  cases h.more <;> rfl

/-- A number of 28 bits is in the word as it is. -/
theorem toNat_value_of_lt (hnum : h.num.toNat < 2 ^ 28) :
    h.value.toNat = 16 * h.num.toNat + h.lowBits := by
  rw [toNat_value, Nat.mod_eq_of_lt hnum]

theorem compare_lowBits (h h' : Header) :
    compare h.lowBits h'.lowBits = (compare h.more h'.more).then (compare h.size h'.size) := by
  have hszx : ∀ h : Header, h.size.szx.val < 8 := fun h => Nat.lt_succ_of_lt h.size.szx.isLt
  have hmore : compare h.more.toNat h'.more.toNat = compare h.more h'.more := by
    cases h.more <;> cases h'.more <;> rfl
  have hsize : compare h.size.szx.val h'.size.szx.val = compare h.size h'.size := by
    show _ = (compare h.size.szx.val h'.size.szx.val).then .eq
    rw [Ordering.then_eq]
  rw [lowBits_eq, lowBits_eq, compare_digits (hszx h) (hszx h'), hmore, hsize]

/-- Headers compare as their words do. -/
theorem compare_value (hnum : h.num.toNat < 2 ^ 28) (hnum' : h'.num.toNat < 2 ^ 28) :
    compare h.value h'.value = compare h h' := by
  calc compare h.value h'.value
      = compare (16 * h.num.toNat + h.lowBits) (16 * h'.num.toNat + h'.lowBits) := by
        rw [← compare_toNat, toNat_value_of_lt hnum, toNat_value_of_lt hnum']
    _ = (compare h.num h'.num).then (compare h.lowBits h'.lowBits) := by
        rw [compare_digits (b := 16) h.lowBits_lt h'.lowBits_lt, compare_toNat]
    _ = compare h h' := by rw [compare_lowBits, compare_eq]

/-- A header is known by its word. -/
theorem value_inj (hnum : h.num.toNat < 2 ^ 28) (hnum' : h'.num.toNat < 2 ^ 28) :
    h.value = h'.value ↔ h = h' := by
  refine ⟨fun hvalue => ?_, congrArg value⟩
  have hread : Block1.ofNumber h.value.toNat = Block1.ofNumber h'.value.toNat := by rw [hvalue]
  rwa [Block1.ofNumber_value, Block1.ofNumber_value, Nat.mod_eq_of_lt hnum, Nat.mod_eq_of_lt hnum',
    UInt32.ofNat_toNat, UInt32.ofNat_toNat] at hread

/-- The header has the fields that lie in the word `v`: the flag in bit 3, the exponent below
it, of which 7 is read as 6, and the number above it. -/
structure Unpacks (h : Header) (v : UInt32) : Prop where
  num_eq : h.num = v >>> 4
  more_eq : h.more = decide ((v >>> 3) &&& 1 = 1)
  bytes_eq : h.size.bytes = 2 ^ (min (v &&& 7).toNat 6 + 4)

end Header

/-! ## Octets of a word -/

namespace Octets

/-- The octets of a word, the highest first. -/
def ofWord (w : UInt32) : ByteArray :=
  [(w >>> 24).toUInt8, (w >>> 16).toUInt8, (w >>> 8).toUInt8, w.toUInt8].toByteArray

theorem ofNat_toNat (w : UInt32) : ofNat 4 w.toNat = ofWord w := by
  have hdigits : digits 4 w.toNat =
      [(w >>> 24).toUInt8, (w >>> 16).toUInt8, (w >>> 8).toUInt8, w.toUInt8] := by
    simp [digits, ← UInt8.toNat_inj]
  rw [ofNat, hdigits, ofWord]

theorem toNat_ofWord (w : UInt32) : toNat (ofWord w) = w.toNat := by
  rw [← ofNat_toNat, toNat_ofNat w.toNat_lt]

end Octets

namespace Block1

theorem encode_eq (h : Header) : encode h = Octets.ofWord h.value := by
  rw [encode, number_eq, Octets.ofNat_toNat]

theorem decode_ofWord (v : UInt32) : decode (Octets.ofWord v) = ofNumber v.toNat := by
  rw [decode, Octets.toNat_ofWord]

theorem toNat_and_seven (v : UInt32) : (v &&& 7).toNat = v.toNat % 8 := by
  rw [UInt32.toNat_and]
  exact Nat.and_two_pow_sub_one_eq_mod _ 3

theorem unpacks_ofNumber (v : UInt32) : (ofNumber v.toNat).Unpacks v where
  num_eq := by
    have hlt := v.toNat_lt
    refine UInt32.toNat_inj.1 ?_
    simp only [ofNumber, UInt32.toNat_ofNat', UInt32.toNat_shiftRight, Nat.shiftRight_eq_div_pow]
    show v.toNat / 16 % 2 ^ 32 = v.toNat / 2 ^ 4
    omega
  more_eq := by
    simp only [ofNumber, ← UInt32.toNat_inj]
    simp [Nat.shiftRight_eq_div_pow]
  bytes_eq := by
    rw [toNat_and_seven, Size.bytes, Nat.one_shiftLeft]
    rfl

/-- A word whose exponent names a size is the word of what is read from it. -/
theorem value_ofNumber {v : UInt32} (hv : v &&& 7 ≤ 6) : (ofNumber v.toNat).value = v := by
  have hszx : v.toNat % 8 ≤ 6 := by
    rw [← toNat_and_seven]
    exact UInt32.le_iff_toNat_le.1 hv
  have hlt := v.toNat_lt
  have hnum : (ofNumber v.toNat).num.toNat = v.toNat / 16 :=
    UInt32.toNat_ofNat_of_lt' (by show v.toNat / 16 < 2 ^ 32; omega)
  have hmore : (if (ofNumber v.toNat).more then 8 else 0) = 8 * (v.toNat / 8 % 2) := by
    simp only [ofNumber, decide_eq_true_eq]
    split <;> omega
  have hsize : (ofNumber v.toNat).size.szx.val = v.toNat % 8 := min_eq_left hszx
  refine UInt32.toNat_inj.1 ?_
  rw [Header.toNat_value_of_lt (by omega), Header.lowBits, hnum, hmore, hsize]
  omega

end Block1

/-- The block option has the octets of the word, and is read back as far as they go. -/
theorem Message.block?_setBlock (m : Message) (h : Header) :
    (m.setBlock h).options[OptionNumber.block1]? = some [Octets.ofWord h.value] ∧
      (m.setBlock h).block? = some { h with num := UInt32.ofNat (h.num.toNat % 2 ^ 28) } := by
  have hoption : (m.setBlock h).options[OptionNumber.block1]? = some [Block1.encode h] := by
    rw [getElem?_setBlock, if_pos rfl]
  constructor
  · rw [hoption, Block1.encode_eq]
  · rw [block?, hoption, Option.bind_some, List.head?_cons, Option.map_some,
      Block1.decode_encode]

/-- **The block option says what the header says.**  Setting it stores the octets of the
header's word, and what is read back is the header with the low 28 bits of its number; and so
it is with the messages of any transport that builds them.  The reader finds the fields of any word where the layout has them.  Headers whose number has no
more than 28 bits are known by their words and compare as these do; and a word is that of the
header read from it, whenever its exponent names a size. -/
theorem block_option_word :
    (∀ (m : Message) (h : Header),
      (m.setBlock h).options[OptionNumber.block1]? = some [Octets.ofWord h.value] ∧
      (m.setBlock h).block? = some { h with num := UInt32.ofNat (h.num.toNat % 2 ^ 28) }) ∧
    (∀ {σ μ β ε : Type} {t : Transport σ μ β ε} {view : μ → Message}, t.Builds view →
      ∀ {h : Header} {m m' : μ} {l l' : σ}, t.setBlock h m l = .ok m' l' →
        (view m').options[OptionNumber.block1]? = some [Octets.ofWord h.value] ∧
        (view m').block? = some { h with num := UInt32.ofNat (h.num.toNat % 2 ^ 28) }) ∧
    (∀ v : UInt32, (Block1.decode (Octets.ofWord v)).Unpacks v) ∧
    (∀ h h' : Header, h.num.toNat < 2 ^ 28 → h'.num.toNat < 2 ^ 28 →
      (h.value = h'.value ↔ h = h') ∧ compare h.value h'.value = compare h h' ∧
      compare h h' = (compare h.num h'.num).then
        ((compare h.more h'.more).then (compare h.size.bytes h'.size.bytes))) ∧
    (∀ v : UInt32, v &&& 7 ≤ 6 → (Block1.decode (Octets.ofWord v)).value = v) := by
  refine ⟨Message.block?_setBlock, ?_, fun v => ?_, fun h h' hnum hnum' => ⟨?_, ?_, ?_⟩,
    fun v hv => ?_⟩
  · intro σ μ β ε t view hbuilds h m m' l l' hset
    rw [hbuilds.setBlock hset]
    exact Message.block?_setBlock (view m) h
  · rw [Block1.decode_ofWord]
    exact Block1.unpacks_ofNumber v
  · exact Header.value_inj hnum hnum'
  · exact Header.compare_value hnum hnum'
  · rw [Header.compare_eq, Size.compare_bytes]
  · rw [Block1.decode_ofWord]
    exact Block1.value_ofNumber hv

/-- The largest number with room in the option, and the word whose bits are all set but one;
and a number that is too large by one, set by a scripted link and read back as 0. -/
theorem block_option_word_sample :
    let h : Header := ⟨0xFFFFFFF, false, ⟨6⟩⟩
    let h' : Header := ⟨0xFFFFFFF, true, ⟨0⟩⟩
    h.num.toNat < 2 ^ 28 ∧ h'.num.toNat < 2 ^ 28 ∧ (0xFFFFFFFE : UInt32) &&& 7 ≤ 6 ∧
      h.value = 0xFFFFFFF6 ∧ h'.value = 0xFFFFFFF8 ∧ compare h.value h'.value = compare h h' ∧
      (Block1.decode (Octets.ofWord 0xFFFFFFFE)).value = 0xFFFFFFFE ∧
      Link.transport.Builds Draft.message ∧
      ∃ (d d' : Draft) (l l' : Link),
        Link.transport.setBlock ⟨0x10000000, true, ⟨0⟩⟩ d l = .ok d' l' ∧
        d'.message.block? = some ⟨0, true, ⟨0⟩⟩ := by
  intro h h'
  obtain ⟨-, hbuilt, -, horder, hback⟩ := block_option_word
  have hset : Link.transport.setBlock ⟨0x10000000, true, ⟨0⟩⟩ ⟨0, .request .put ∅⟩ {} = .ok _ _ := rfl
  exact ⟨by decide, by decide, by decide, by decide, by decide,
    (horder h h' (by decide) (by decide)).2.1, hback 0xFFFFFFFE (by decide),
    Link.transport_builds, _, _, _, _, hset, (hbuilt Link.transport_builds hset).2⟩

end Blockwise
