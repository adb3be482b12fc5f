import BinDecoder.Reads

/-!
# The 128-bit reads

`ReadUint128` of `src/decoder.go` reads 16 bytes as two `binary.ByteOrder.Uint64` words:
in little-endian order the low word is the first eight bytes, in big-endian order the
high one is.  Against the integer the specification names, the 16 bytes read in the
given byte order (`ByteOrder.wordValue`, byte 0 least significant in little-endian order
and most significant in big-endian order), the two words are its halves in both orders
(`read128_value`).  `ReadInt128` returns the same two words, and the signed integer they
stand for, the high word taken as an `int64`, is that integer's two's-complement
reading.
-/

namespace BinDecoder

open Decoder

/-- Modelled from the spec: the unsigned integer that `bs` encodes in `order`, byte 0 the
least significant in little-endian order and the most significant in big-endian order. -/
def ByteOrder.wordValue : ByteOrder → List UInt8 → Nat
  | .littleEndian, bs => bs.foldr (fun b v => b.toNat + 256 * v) 0
  | .bigEndian, bs => bs.foldl (fun v b => 256 * v + b.toNat) 0

theorem leValue_append (a b : List UInt8) :
    leValue (a ++ b) = leValue a + 256 ^ a.length * leValue b := by
  induction a with
  | nil => simp [leValue]
  | cons x a ih => rw [List.cons_append, leValue, leValue, ih, List.length_cons, pow_succ]; ring

theorem wordValue_littleEndian (bs : List UInt8) :
    ByteOrder.littleEndian.wordValue bs = leValue bs := by
  induction bs with
  | nil => rfl
  | cons b bs ih => simp only [ByteOrder.wordValue, List.foldr_cons] at ih ⊢; rw [ih, leValue]

/-- Reading the first byte as the most significant is reading the reversed bytes with
the first as the least significant. -/
theorem wordValue_bigEndian (bs : List UInt8) :
    ByteOrder.bigEndian.wordValue bs = leValue bs.reverse := by
  rw [← wordValue_littleEndian, ByteOrder.wordValue, ByteOrder.wordValue, List.foldr_reverse]
  simp only [Nat.add_comm]

/-- The signed integer of two 64-bit words, the high one taken as an `int64`, is the
two's-complement reading of the 128 bits they hold. -/
theorem toSigned_words {hi lo : Nat} (hhi : hi < 2 ^ 64) (hlo : lo < 2 ^ 64) :
    toSigned 64 hi * 2 ^ 64 + lo = toSigned 128 (hi * 2 ^ 64 + lo) := by
  unfold toSigned
  split_ifs <;> push_cast <;> omega

/-- `ReadUint128` on 16 unread bytes: two words below `2 ^ 64`, the high one times
`2 ^ 64` plus the low one being the integer the bytes encode in that byte order. -/
theorem readUint128_words (order : ByteOrder) {dec : Decoder} (h₀ : 0 ≤ dec.pos)
    (h16 : dec.pos + 16 ≤ dec.data.length) :
    ∃ out : Uint128, readUint128 order dec = .ok out (dec.setPos (dec.pos + 16)) ∧
      out.hi < 2 ^ 64 ∧ out.lo < 2 ^ 64 ∧
      out.hi * 2 ^ 64 + out.lo = order.wordValue (dec.rest.take 16) := by
  have hin : dec.InBounds := ⟨h₀, by omega⟩
  have hlen : (dec.rest.take 16).length = 16 := by
    have := length_rest hin; rw [List.length_take]; omega
  have hsplit := List.take_append_drop 8 (dec.rest.take 16)
  have htake : ((dec.rest.take 16).take 8).length = 8 := by rw [List.length_take, hlen]; rfl
  have hdrop : ((dec.rest.take 16).drop 8).length = 8 := by rw [List.length_drop, hlen]
  have hw : ∀ (o : ByteOrder) bs, o.uint 8 bs < 2 ^ 64 := fun o bs => o.uint_lt 8 bs
  rw [readUint128, if_neg (by rw [remaining_eq hin]; omega)]
  simp only [DecM.bind_apply, sliceData, add_sub_cancel_left, drop_pos_eq_rest, Int.reduceToNat]
  rw [if_pos ⟨h₀, by omega, h16⟩, Outcome.bind_ok]
  cases order with
  | littleEndian =>
    rw [if_pos rfl]
    refine ⟨_, rfl, hw .littleEndian _, hw .littleEndian _, ?_⟩
    simp only [ByteOrder.uint, List.take_of_length_le htake.le, List.take_of_length_le hdrop.le,
      wordValue_littleEndian]
    conv_rhs => rw [← hsplit, leValue_append, htake]
    ring
  | bigEndian =>
    rw [if_neg nofun]
    refine ⟨_, rfl, hw .bigEndian _, hw .bigEndian _, ?_⟩
    simp only [ByteOrder.uint, List.take_of_length_le htake.le, List.take_of_length_le hdrop.le,
      wordValue_bigEndian]
    conv_rhs => rw [← hsplit, List.reverse_append, leValue_append, List.length_reverse, hdrop]
    ring

/-- With 16 bytes at the cursor, `ReadUint128` returns the integer they encode in the given
byte order as its two 64-bit halves and advances the cursor by 16; `ReadInt128` returns
the same two words, whose signed reading is the two's complement of those 128 bits. -/
theorem read128_value (order : ByteOrder) (dec : Decoder) (h₀ : 0 ≤ dec.pos)
    (h16 : dec.pos + 16 ≤ dec.data.length) :
    ∃ out : Uint128, readUint128 order dec = .ok out (dec.setPos (dec.pos + 16)) ∧
      out.hi * 2 ^ 64 + out.lo = order.wordValue (dec.rest.take 16) ∧
      readInt128 order dec = .ok out (dec.setPos (dec.pos + 16)) ∧
      toSigned 64 out.hi * 2 ^ 64 + out.lo = toSigned 128 (order.wordValue (dec.rest.take 16)) := by
  obtain ⟨out, hread, hhi, hlo, hval⟩ := readUint128_words order h₀ h16
  exact ⟨out, hread, hval, hread, by rw [← hval]; exact toSigned_words hhi hlo⟩

/-- Sixteen bytes `0xff` in big-endian order: `ReadInt128` reads `-1`. -/
theorem read128_all_ones :
    0 ≤ (newBinDecoder (List.replicate 16 0xff) (by decide)).pos ∧
      (newBinDecoder (List.replicate 16 0xff) (by decide)).pos + 16 ≤
        (newBinDecoder (List.replicate 16 0xff) (by decide)).data.length ∧
      ∃ out : Uint128, readInt128 .bigEndian (newBinDecoder (List.replicate 16 0xff) (by decide)) =
          .ok out ((newBinDecoder (List.replicate 16 0xff) (by decide)).setPos 16) ∧
        toSigned 64 out.hi * 2 ^ 64 + out.lo = -1 :=
  let ⟨out, _, _, hread, hsigned⟩ := read128_value .bigEndian _ (by decide) (by decide)
  ⟨by decide, by decide, out, hread, hsigned.trans (by simp [toSigned, ByteOrder.wordValue, Decoder.rest, newBinDecoder, newDecoderWithEncoding])⟩

end BinDecoder
