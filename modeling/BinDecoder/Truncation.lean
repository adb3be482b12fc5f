import BinDecoder.Ops

/-!
# Reads on a buffer that ends too soon

Where the cursor is after a read that failed for want of bytes, read by read:

* the reads that check the remaining bytes first (`Read`: the fixed-width reads, the
  varints, `ReadBool`) leave the session as they found it;
* `ReadNBytes` (and `ReadTypeID`, which is `ReadNBytes(8)`) reads byte by byte through
  `ReadByte`, so a short buffer is consumed to its end before the error;
* `ReadByteSlice` (and `ReadString`, `SafeReadUTF8String`) reads its length prefix
  first, and fails on a short payload with the cursor past the prefix;
* `ReadRustString` fails on a short payload at the end of the buffer.

`short_read_cursor` collects the four facts.  The second breaks the rule every other read
keeps: `readNBytes` makes its buffer and reads byte by byte without checking the remaining
bytes first, so a short `ReadNBytes` moves the cursor (`readNBytes_short_moves`).

Then the length prefixes that do not fit a Go `int`: a Bin prefix of `2^63` or more is
negative after `int(length)`, and `ReadByteSlice` slices `dec.data[pos:pos+length]` with
its bounds reversed, which panics (`readByteSlice_wrap`); `ReadRustString` makes a
negative-length buffer (`readRustString_wrap`).
-/

namespace BinDecoder

open Decoder

/-- The errors of a read that found too few bytes: `"required [n] bytes, remaining [r]"`,
`ErrVarIntBufferSize` (also returned for an overlong varint) and `"byte array: varlen=…"`,
possibly wrapped by `ReadBool` or `ReadFloat128`. -/
def DecodeError.isShort : DecodeError → Bool
  | .required .. | .varIntBufferSize | .byteArray .. => true
  | .readBool e | .float128 e => e.isShort
  | _ => false

/-- `m` leaves the session as it found it whenever it fails for want of bytes. -/
def StaysOnShort {α : Type} (m : DecM α) : Prop :=
  ∀ dec, dec.InBounds → ∀ e d, m dec = .err e d → e.isShort → d = dec

theorem StaysOnShort.bind_pure {α β : Type} {m : DecM α} (f : α → β) (h : StaysOnShort m) :
    StaysOnShort (m >>= fun a => pure (f a)) := by
  intro dec hin e d hd hs
  cases hm : m dec <;> simp only [DecM.bind_apply, hm, Outcome.bind_ok, Outcome.bind_err,
    Outcome.bind_panic, Outcome.bind_outOfFuel, DecM.pure_apply, reduceCtorEq,
    Outcome.err.injEq] at hd
  exact h dec hin _ _ (hm.trans (by rw [hd.1, hd.2])) hs

theorem StaysOnShort.map {α β : Type} {m : DecM α} (f : α → β) (h : StaysOnShort m) :
    StaysOnShort (f <$> m) :=
  h.bind_pure f

/-- A read whose only errors leave the session alone. -/
theorem StaysOnShort.of_err {α : Type} {m : DecM α}
    (h : ∀ dec e d, m dec = .err e d → e.isShort → d = dec) : StaysOnShort m :=
  fun dec _ e d hd hs => h dec e d hd hs

theorem staysOnShort_readByte : StaysOnShort readByte :=
  StaysOnShort.of_err fun dec e d hd _ => by
    unfold readByte at hd; split_ifs at hd; cases hd; rfl

theorem staysOnShort_readBool : StaysOnShort readBool := by
  intro dec hin e d hd hs
  unfold readBool at hd
  split_ifs at hd
  · simp_all
  · cases hb : readByte dec <;> simp only [hb, reduceCtorEq, Outcome.err.injEq] at hd
    obtain ⟨rfl, rfl⟩ := hd
    exact staysOnShort_readByte dec hin _ _ hb hs

theorem staysOnShort_readFixed (what : String) (w : Nat) (order : ByteOrder) :
    StaysOnShort (readFixed what w order) :=
  StaysOnShort.of_err fun dec e d hd _ => by
    unfold readFixed at hd; split_ifs at hd; cases hd; rfl

/-- `readBytes n` succeeds when `n` bytes remain. -/
theorem readBytes_of_le {dec : Decoder} (hin : dec.InBounds) {n : Nat}
    (h : n ≤ dec.rest.length) : ∃ bs d, readBytes n dec = .ok bs d := by
  have := readBytes_append hin.1 (dec.rest.take n) (List.take_append_drop n dec.rest).symm
  rw [List.length_take, min_eq_left h] at this
  exact ⟨_, _, this⟩

/-- `ReadUint64` fails only by its own check, before it moves the cursor. -/
theorem readUint64_err {dec : Decoder} (hin : dec.InBounds) {order : ByteOrder}
    {e : DecodeError} {d : Decoder} (h : readUint64 order dec = .err e d) :
    e = .required "decode: uint64" 8 dec.remaining ∧ d = dec ∧ dec.remaining < 8 := by
  have hr := remaining_eq_length_rest hin
  unfold readUint64 at h
  split_ifs at h with hlt
  · cases h; exact ⟨rfl, rfl, hlt⟩
  · obtain ⟨bs, d', hbs⟩ := readBytes_of_le hin (n := 8) (by omega)
    have h8 : (8 : Int).toNat = 8 := rfl
    simp only [DecM.bind_apply, readNBytes_eight, h8, hbs, Outcome.bind_ok, DecM.pure_apply,
      reduceCtorEq] at h

theorem staysOnShort_readUint64 (order : ByteOrder) : StaysOnShort (readUint64 order) :=
  fun _ hin _ _ h _ => (readUint64_err hin h).2.1

theorem staysOnShort_readUint128 (order : ByteOrder) : StaysOnShort (readUint128 order) :=
  StaysOnShort.of_err fun dec e d hd _ => by
    unfold readUint128 at hd
    by_cases h : dec.remaining < 16
    · rw [if_pos h] at hd; simp_all
    · rw [if_neg h] at hd
      simp only [DecM.bind_apply, sliceData] at hd
      split_ifs at hd <;> simp_all

theorem staysOnShort_readFloat128 (order : ByteOrder) : StaysOnShort (readFloat128 order) := by
  intro dec hin e d hd hs
  unfold readFloat128 at hd
  cases h : readUint128 order dec <;> simp only [h, reduceCtorEq, Outcome.err.injEq] at hd
  obtain ⟨rfl, rfl⟩ := hd
  exact staysOnShort_readUint128 order dec hin _ _ h hs

theorem staysOnShort_readFloat32 (order : ByteOrder) : StaysOnShort (readFloat32 order) :=
  StaysOnShort.of_err fun dec e d hd hs => by
    unfold readFloat32 at hd
    dsimp only at hd
    split_ifs at hd <;> first
      | (cases hd; rfl)
      | (cases hd; simp [DecodeError.isShort] at hs)

theorem staysOnShort_readFloat64 (order : ByteOrder) : StaysOnShort (readFloat64 order) :=
  StaysOnShort.of_err fun dec e d hd hs => by
    unfold readFloat64 at hd
    dsimp only at hd
    split_ifs at hd <;> first
      | (cases hd; rfl)
      | (cases hd; simp [DecodeError.isShort] at hs)

theorem staysOnShort_readUvarint64 : StaysOnShort readUvarint64 := by
  intro dec hin e d hd _
  rw [readUvarint64_eq hin] at hd
  split_ifs at hd; cases hd; rfl

theorem staysOnShort_readVarint64 : StaysOnShort readVarint64 := by
  intro dec hin e d hd _
  simp only [readVarint64, DecM.bind_apply, unread_of_inBounds hin, Outcome.bind_ok] at hd
  split_ifs at hd; cases hd; rfl

/-- The reads that check the buffer first fail without moving the cursor. -/
theorem Read.staysOnShort_run : ∀ r : Read, StaysOnShort r.run
  | .byte => staysOnShort_readByte.map _
  | .bool => staysOnShort_readBool.map _
  | .int8 => (staysOnShort_readByte.bind_pure _).map _
  | .uint8 => staysOnShort_readByte.map _
  | .int16 _ => ((staysOnShort_readFixed _ _ _).bind_pure _).map _
  | .int32 _ => ((staysOnShort_readFixed _ _ _).bind_pure _).map _
  | .int64 _ => ((staysOnShort_readUint64 _).bind_pure _).map _
  | .uint16 _ => (staysOnShort_readFixed _ _ _).map _
  | .uint32 _ => (staysOnShort_readFixed _ _ _).map _
  | .uint64 _ => (staysOnShort_readUint64 _).map _
  | .uint128 _ => (staysOnShort_readUint128 _).map _
  | .int128 _ => (staysOnShort_readUint128 _).map _
  | .float32 _ => (staysOnShort_readFloat32 _).map _
  | .float64 _ => (staysOnShort_readFloat64 _).map _
  | .float128 _ => (staysOnShort_readFloat128 _).map _
  | .uvarint64 => staysOnShort_readUvarint64.map _
  | .uvarint32 => (staysOnShort_readUvarint64.bind_pure _).map _
  | .uvarint16 => (staysOnShort_readUvarint64.bind_pure _).map _
  | .varint64 => staysOnShort_readVarint64.map _
  | .varint32 => (staysOnShort_readVarint64.bind_pure _).map _
  | .varint16 => (staysOnShort_readVarint64.bind_pure _).map _

/-- `ReadNBytes` fails only on a short buffer, having read it to its end. -/
theorem readNBytes_err {dec : Decoder} (hin : dec.InBounds) {n : Int} {e : DecodeError}
    {d : Decoder} (h : readNBytes n dec = .err e d) : d = dec.setPos dec.data.length := by
  unfold readNBytes at h
  split_ifs at h with hn
  by_cases hle : n.toNat ≤ dec.rest.length
  · obtain ⟨bs, d', h'⟩ := readBytes_of_le hin hle
    rw [h'] at h; cases h
  · rw [readBytes_short hin _ (by omega)] at h
    cases h; rfl

/-- A failed `ReadByteSlice` leaves the cursor where its length prefix left it. -/
theorem readByteSlice_err (cu16 : CompactU16) {dec : Decoder} {e : DecodeError} {d : Decoder}
    (h : readByteSlice cu16 dec = .err e d) : d ∈ (readLength cu16 dec).dec? := by
  simp only [readByteSlice, DecM.bind_apply] at h
  cases hL : readLength cu16 dec with
  | ok L d₁ =>
    rw [hL, Outcome.bind_ok] at h
    split_ifs at h
    · cases h; rfl
    · simp only [DecM.bind_apply, sliceData] at h
      split_ifs at h <;> cases h
  | err e' d₁ => rw [hL, Outcome.bind_err] at h; cases h; rfl
  | panic p => rw [hL, Outcome.bind_panic] at h; cases h
  | outOfFuel => rw [hL, Outcome.bind_outOfFuel] at h; cases h

/-- Where a read that ran out of bytes leaves the cursor: where it was for the reads that
check first; at the end of the buffer for `ReadNBytes`, which reads byte by byte; past the
length prefix for `ReadByteSlice` and `SafeReadUTF8String` (where the prefix left it, if
the prefix itself was cut); and, for `ReadRustString`, where it was when fewer than the 8
bytes of its prefix remain, and at the end of the buffer otherwise. -/
theorem short_read_cursor (cu16 : CompactU16) (dec : Decoder) (hin : dec.InBounds) :
    (∀ (r : Read) e d, r.run dec = .err e d → e.isShort → d = dec) ∧
    (∀ n e d, readNBytes n dec = .err e d → d = dec.setPos dec.data.length) ∧
    (∀ e d, readByteSlice cu16 dec = .err e d → d ∈ (readLength cu16 dec).dec?) ∧
    (∀ e d, safeReadUTF8String cu16 dec = .err e d → d ∈ (readLength cu16 dec).dec?) ∧
    (∀ e d, readRustString dec = .err e d →
      d = if dec.remaining < 8 then dec else dec.setPos dec.data.length) := by
  refine ⟨fun r e d h hs => r.staysOnShort_run dec hin e d h hs,
    fun n e d h => readNBytes_err hin h, fun e d h => readByteSlice_err cu16 h,
    fun e d h => ?_, fun e d h => ?_⟩
  · simp only [safeReadUTF8String, DecM.bind_apply] at h
    cases hb : readByteSlice cu16 dec <;> simp only [hb, Outcome.bind_ok, Outcome.bind_err,
      DecM.pure_apply, reduceCtorEq, Outcome.bind_panic, Outcome.bind_outOfFuel,
      Outcome.err.injEq] at h
    exact h.2 ▸ readByteSlice_err cu16 hb
  · simp only [readRustString, DecM.bind_apply] at h
    cases hu : readUint64 .littleEndian dec with
    | ok len d₁ =>
      rw [hu, Outcome.bind_ok] at h
      have h8 : ¬ dec.remaining < 8 := fun h8 => by
        rw [readUint64, if_pos h8] at hu; cases hu
      obtain ⟨k, hk, rfl⟩ := advances_readUint64 _ dec hin d₁ (by rw [hu]; rfl)
      rw [if_neg h8, readNBytes_err (inBounds_setPos_of_le hin hk) h]
      simp
    | err e' d₁ =>
      rw [hu, Outcome.bind_err] at h
      cases h
      obtain ⟨-, rfl, h8⟩ := readUint64_err hin hu
      rw [if_pos h8]
    | panic p => rw [hu, Outcome.bind_panic] at h; cases h
    | outOfFuel => rw [hu, Outcome.bind_outOfFuel] at h; cases h

/-- `ReadNBytes(n)` with fewer than `n` bytes left reads the ones there are and fails at the
end of the buffer: unlike the other reads it does not check the remaining bytes first, so
the short read moves the cursor whenever a byte was left. -/
theorem readNBytes_short_moves {dec : Decoder} (hin : dec.InBounds) {n : Int}
    (hn : dec.remaining < n) (hmax : n ≤ maxAlloc) :
    readNBytes n dec = .err (.required "" 1 0) (dec.setPos dec.data.length) ∧
      (0 < dec.remaining → (dec.setPos dec.data.length).pos ≠ dec.pos) := by
  have hr := remaining_eq_length_rest hin
  have hl := length_rest hin
  refine ⟨?_, fun h => by simp only [setPos_pos]; omega⟩
  rw [readNBytes_of_le (by omega) hmax, readBytes_short hin _ (by omega)]

/-- `ReadNBytes(2)` on the buffer `[7]` reads the `7` and fails with the cursor at `1`. -/
theorem readNBytes_short_moves_one_byte :
    ((newBinDecoder [7] (by decide)).InBounds ∧ (newBinDecoder [7] (by decide)).remaining < 2 ∧
      (2 : Int) ≤ maxAlloc) ∧
    readNBytes 2 (newBinDecoder [7] (by decide)) =
        .err (.required "" 1 0) ((newBinDecoder [7] (by decide)).setPos 1) ∧
      (0 < (newBinDecoder [7] (by decide)).remaining →
        ((newBinDecoder [7] (by decide)).setPos 1).pos ≠ (newBinDecoder [7] (by decide)).pos) :=
  ⟨⟨inBounds_newDecoderWithEncoding _ _ _, by decide, by decide⟩,
    readNBytes_short_moves (inBounds_newDecoderWithEncoding _ _ _) (by decide) (by decide)⟩

/-! ## Length prefixes that do not fit a Go `int` -/

section Wrap

variable (cu16 : CompactU16)

/-- A Bin length prefix of `2^63` or more: `ReadByteSlice` slices with reversed bounds. -/
theorem readByteSlice_wrap {dec : Decoder} (hin : dec.InBounds) (hbin : dec.encoding = .bin)
    {x : Nat} (hx : 2 ^ 63 ≤ x) (hx' : x < 2 ^ 64) {s : List UInt8}
    (h : dec.rest = putUvarint x ++ s) :
    readByteSlice cu16 dec = .panic .sliceBoundsOutOfRange := by
  have hu := readUvarint64_putUvarint hin hx' h
  have hL : readLength cu16 dec =
      .ok (toInt x) (dec.setPos (dec.pos + (putUvarint x).length)) := by
    simp only [readLength_bin cu16 hbin, DecM.bind_apply, hu, Outcome.bind_ok, DecM.pure_apply]
  have hin₁ := inBounds_setPos hin h
  have hneg : toInt x = (x : Int) - 2 ^ 64 := by unfold toInt; rw [if_neg (by omega)]
  have hlt := dec.data_lt_int
  unfold InBounds at hin₁
  simp only [setPos_pos, setPos_data] at hin₁
  simp only [readByteSlice, DecM.bind_apply, hL, Outcome.bind_ok, setPos_pos, setPos_data]
  rw [hneg, wrapInt_of_mem (by omega) (by omega), if_neg (by omega)]
  simp only [DecM.bind_apply, sliceData, setPos_data]
  rw [if_neg (by omega)]
  rfl

/-- An 8-byte Rust length of `2^63` or more: `ReadRustString` asks `ReadNBytes` for a
negative number of bytes, and `make([]byte, n)` panics. -/
theorem readRustString_wrap {dec : Decoder} (hin : dec.InBounds) {x : Nat} (hx : 2 ^ 63 ≤ x)
    (hx' : x < 2 ^ 64) {s : List UInt8}
    (h : dec.rest = ByteOrder.littleEndian.putUint 8 x ++ s) :
    readRustString dec = .panic .makeSliceLen := by
  have h8 := readUint64_append .littleEndian hin.1 h (by simp)
  have hx8 := ByteOrder.littleEndian.uint_putUint_append 8 x []
  rw [List.append_nil, Nat.mod_eq_of_lt (by norm_num; omega)] at hx8
  rw [hx8] at h8
  have hneg : toInt x < 0 := toInt_neg hx hx'
  simp only [readRustString, DecM.bind_apply, h8, Outcome.bind_ok, readNBytes, if_pos (Or.inl hneg)]

/-- Length prefixes of `2^63` or more make `ReadByteSlice` (so `ReadString` and
`SafeReadUTF8String`) in the Bin encoding, and `ReadRustString` in every encoding, panic
instead of returning an error. -/
theorem length_prefix_wraps (dec : Decoder) (hin : dec.InBounds) {x : Nat} (hx : 2 ^ 63 ≤ x)
    (hx' : x < 2 ^ 64) (s : List UInt8) :
    (dec.encoding = .bin → dec.rest = putUvarint x ++ s →
      readByteSlice cu16 dec = .panic .sliceBoundsOutOfRange) ∧
    (dec.rest = ByteOrder.littleEndian.putUint 8 x ++ s →
      readRustString dec = .panic .makeSliceLen) :=
  ⟨fun hbin h => readByteSlice_wrap cu16 hin hbin hx hx' h,
    fun h => readRustString_wrap hin hx hx' h⟩

end Wrap

/-- The uvarint `2^64 - 1` as a Bin length prefix, and as an 8-byte Rust one. -/
theorem length_prefix_wraps_max :
    ((newBinDecoder (putUvarint (2 ^ 64 - 1)) (by decide)).InBounds ∧
      2 ^ 63 ≤ 2 ^ 64 - 1 ∧ 2 ^ 64 - 1 < 2 ^ 64) ∧
    ((newBinDecoder (putUvarint (2 ^ 64 - 1)) (by decide)).encoding = .bin →
      (newBinDecoder (putUvarint (2 ^ 64 - 1)) (by decide)).rest = putUvarint (2 ^ 64 - 1) ++ [] →
      readByteSlice .rejecting (newBinDecoder (putUvarint (2 ^ 64 - 1)) (by decide)) =
        .panic .sliceBoundsOutOfRange) ∧
    ((newBinDecoder (putUvarint (2 ^ 64 - 1)) (by decide)).rest =
        ByteOrder.littleEndian.putUint 8 (2 ^ 64 - 1) ++ [] →
      readRustString (newBinDecoder (putUvarint (2 ^ 64 - 1)) (by decide)) =
        .panic .makeSliceLen) :=
  ⟨⟨inBounds_newDecoderWithEncoding _ _ _, by norm_num, by norm_num⟩,
    length_prefix_wraps .rejecting _ (inBounds_newDecoderWithEncoding _ _ _) (x := 2 ^ 64 - 1)
      (by norm_num) (by norm_num) []⟩

end BinDecoder
