import Blockwise.Message.Basic
import Blockwise.Proofs.BlockOption
import Blockwise.Proofs.Handing
import Blockwise.Proofs.Paths
/-!
# The message that carries a block

What an admission settles about a message is what is to be set on it, `Admission.parcel`.
Here it is made into the message itself, as it goes out: `Contents.message` sets it all on a
message that has nothing set.

**Read from outside.**  `Message.Conveys` says what a message tells a reader who knows
nothing of setters: three options and no others, of which each is read back by itself.  The
message for a block conveys the block (`Admission.Valid.conveys`).
-/

namespace Blockwise

/-! ## Setting options -/

namespace Message

variable (m : Message) (n : OptionNumber)

theorem getElem?_setPath (path : String) :
    (m.setPath path).options[n]? =
      if OptionNumber.uriPath = n then
        some (m.options[OptionNumber.uriPath]?.getD [] ++ (Path.segments path).map String.toUTF8)
      else m.options[n]? := by
  rw [setPath, Std.ExtTreeMap.getElem?_alter]
  simp only [Std.compare_eq_iff_eq]

theorem getElem?_setFormat (format : ContentFormat) :
    (m.setFormat format).options[n]? =
      if OptionNumber.contentFormat = n then some [Octets.ofNat 2 format.number.toNat]
      else m.options[n]? := by
  rw [setFormat, Std.ExtTreeMap.getElem?_insert]
  simp only [Std.compare_eq_iff_eq]

theorem getElem?_setBlock (header : Header) :
    (m.setBlock header).options[n]? =
      if OptionNumber.block1 = n then some [Block1.encode header] else m.options[n]? := by
  rw [setBlock, Std.ExtTreeMap.getElem?_insert]
  simp only [Std.compare_eq_iff_eq]

end Message

/-- The message on which this is set, and nothing else. -/
def Contents.message (c : Contents) : Message :=
  let m : Message := c.paths.foldl (fun m path => m.setPath path) (.request c.method c.token)
  let m : Message := c.format.elim m (Message.setFormat · m)
  let m : Message := c.header.elim m (Message.setBlock · m)
  m.setPayload c.payload

/-! ## What a message conveys -/

/-- The message is a request for block `i` of the upload, and for nothing else. -/
structure Message.Conveys (m : Message) (a : Admission) (i : ℕ) : Prop where
  kind_eq : m.kind = .confirmable
  /-- The number is left to the message layer. -/
  id_eq : m.id = 0
  code_eq : m.code = a.method.code
  /-- POST is 0.02, and PUT is 0.03. -/
  method_code : a.method = .post ∧ m.code = ⟨0, 2⟩ ∨ a.method = .put ∧ m.code = ⟨0, 3⟩
  token_eq : m.token = a.token
  mem_options_iff : ∀ n : OptionNumber, n ∈ m.options ↔ n ∈ [11, 12, 27]
  path : ∃ segments : List String, m.options[OptionNumber.uriPath]? =
    some (segments.map String.toUTF8) ∧ Path.Spells segments a.upload.path
  format : ∃ octets : ByteArray, m.options[OptionNumber.contentFormat]? = some [octets] ∧
    octets.size = 2 ∧ Octets.toNat octets = a.upload.format.number.toNat
  block : ∃ octets : ByteArray, m.options[OptionNumber.block1]? = some [octets] ∧
    Block1.decode octets = a.header i
  num_eq : (a.header i).num.toNat = i
  num_le : i ≤ Header.maxNum
  /-- The fields of the block option need no more than three octets. -/
  value_lt : (a.header i).value.toNat < 2 ^ 24
  payload_eq : m.payload = Block.payloadAt a.upload.body a.size i

namespace Admission

variable {a : Admission} {i : ℕ}

/-- Every option of the message for a block is set once. -/
theorem getElem?_message (a : Admission) (i : ℕ) (n : OptionNumber) :
    (a.parcel i).message.options[n]? =
      if OptionNumber.block1 = n then some [Block1.encode (a.header i)]
      else if OptionNumber.contentFormat = n then
        some [Octets.ofNat 2 a.upload.format.number.toNat]
      else if OptionNumber.uriPath = n then
        some ((Path.segments a.upload.target).map String.toUTF8)
      else none := by
  show ((((Message.request a.method a.token).setPath a.upload.target).setFormat
    a.upload.format).setBlock (a.header i)).options[n]? = _
  have hnone : ∀ n : OptionNumber, (Message.request a.method a.token).options[n]? = none :=
    fun n => Std.ExtTreeMap.getElem?_empty
  rw [Message.getElem?_setBlock, Message.getElem?_setFormat, Message.getElem?_setPath, hnone,
    hnone, Option.getD_none, List.nil_append]

theorem Valid.conveys (h : a.Valid) (hi : i < a.total) : (a.parcel i).message.Conveys a i := by
  have hnum : (a.header i).num.toNat = i := UInt32.toNat_ofNat_of_lt' (hi.trans h.total_lt)
  have hle : i ≤ Header.maxNum := Nat.le_of_lt_succ (hi.trans_le h.total_le)
  have hle' : (a.header i).num.toNat ≤ Header.maxNum := hnum.symm ▸ hle
  refine
    { kind_eq := rfl, id_eq := rfl, code_eq := rfl, method_code := Method.code_eq_iff.1 rfl
      token_eq := rfl, payload_eq := rfl
      mem_options_iff := fun n => ?_, path := ?_, format := ?_, block := ?_
      num_eq := hnum, num_le := hle, value_lt := Header.toNat_value_lt _ hle' }
  · rw [Std.ExtTreeMap.mem_iff_isSome_getElem?, getElem?_message]
    simp only [List.mem_cons, List.not_mem_nil, or_false]
    unfold OptionNumber.block1 OptionNumber.contentFormat OptionNumber.uriPath
    grind
  · exact ⟨Path.segments a.upload.target, getElem?_message a i _,
      Path.spells_segments (Path.trim_ne_empty_iff.2 h.path_ne)⟩
  · exact ⟨_, getElem?_message a i _, Octets.size_ofNat 2 _,
      Octets.toNat_ofNat a.upload.format.number.toNat_lt⟩
  · exact ⟨_, getElem?_message a i _, Block1.decode_encode_of_le hle'⟩

end Admission

end Blockwise
