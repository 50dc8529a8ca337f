/-!
# Tokens

A token ties the responses of a server to the request that they answer.  All
blocks of one upload share one token.  On the wire a token is at most eight
octets; the tokens that this library draws are four octets long.
-/

namespace Blockwise

/-- A token: at most eight octets. -/
structure Token where
  octets : List UInt8
  /-- A token has room for eight octets. -/
  length_le : octets.length ≤ 8 := by simp
deriving DecidableEq

namespace Token

instance : Repr Token where
  reprPrec t := reprPrec t.octets

/-- The token without octets. -/
def empty : Token where
  octets := []

instance : EmptyCollection Token := ⟨empty⟩

instance : Inhabited Token := ⟨empty⟩

/-- The number of octets in every token that is drawn for an upload. -/
def drawnLength : Nat := 4

/-- The token of these octets, if they are no more than eight. -/
def ofOctets? (octets : List UInt8) : Option Token :=
  if h : octets.length ≤ 8 then some ⟨octets, h⟩ else none

/-- The token of one word: its four octets, the lowest first. -/
def ofWord (w : UInt32) : Token where
  octets := [w.toUInt8, (w >>> 8).toUInt8, (w >>> 16).toUInt8, (w >>> 24).toUInt8]

theorem length_octets_ofWord (w : UInt32) : (ofWord w).octets.length = drawnLength := rfl

/-- Different words make different tokens. -/
theorem ofWord_inj {v w : UInt32} : ofWord v = ofWord w ↔ v = w := by
  constructor
  · intro h
    simp only [ofWord, Token.mk.injEq, List.cons.injEq, and_true] at h
    obtain ⟨h₀, h₁, h₂, h₃⟩ := h
    have k₀ := congrArg UInt8.toNat h₀
    have k₁ := congrArg UInt8.toNat h₁
    have k₂ := congrArg UInt8.toNat h₂
    have k₃ := congrArg UInt8.toNat h₃
    simp only [UInt32.toNat_toUInt8, UInt32.toNat_shiftRight, Nat.shiftRight_eq_div_pow] at k₀ k₁ k₂ k₃
    have hv := v.toNat_lt
    have hw := w.toNat_lt
    apply UInt32.toNat_inj.1
    simp at k₀ k₁ k₂ k₃ hv hw
    omega
  · rintro rfl; rfl

end Token

end Blockwise
