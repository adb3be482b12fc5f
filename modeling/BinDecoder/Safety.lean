import BinDecoder.Calls
import BinDecoder.Truncation

/-!
# Panics of `Decode` on input it should refuse

Three ways a Bin-mode `Decode` panics where an error was due:

* `decode_length_wraps`: a slice count or string length of `2^63` or more read from the
  wire is negative after `int(length)`; the slice case reaches
  `reflect.MakeSlice(rt, l, l)` with `l < 0`, the string case `ReadByteSlice`'s reversed
  slice bounds;
* `optional_unmarshaler_field_panics`: an optional field of a defined non-pointer type
  whose pointer type has a custom decoder.  `indirect` with `decodingNull` takes the
  round through the field's address, finds the decoder there and returns it with the
  zero `reflect.Value`, which the presence-byte code then asks for its type (or sets);
* `negative_size_panics`: a signed `sizeof=` field holding a negative number.  Unlike an
  unsigned one it is not clamped at `0`, and the slice it names is made with a negative
  length.

`decode_ptr_plain` is the common first step: `Decode(&x)` goes through the pointer and
dispatches on the kind of `x`.
-/

namespace BinDecoder

open Decoder

section

variable (env : TypeEnv) (cu16 : CompactU16) (other : OtherDecoders)

/-- `Decode(&x)` for `x` of a type that is neither a pointer nor an interface and whose
pointer type has no custom decoder: the dispatch on `x`'s kind, under the default
directive, written back through the pointer. -/
theorem decode_ptr_plain {t : GoType} (hp : env.kind t ≠ .ptr) (hi : env.kind t ≠ .interface)
    (hm : env.methodOf (.ptr t) = none) (x : Value) (n : Nat) {dec : Decoder}
    (hbin : dec.encoding = .bin) :
    decode env cu16 other (n + 3) (some (.ptr t, .ptr (some x))) dec =
      (decodeKind env cu16 (decodeBin env cu16 (n + 2)) newDefaultOption t x dec).bind
        fun y => pure (.ptr (some y)) := by
  have hind : indirect env (n + 2) (.loc (.ptr t) [] false) false (.ptr (some x)) =
      some (.ok ⟨none, .loc t [.deref] true, .ptr (some x)⟩) := by
    simp only [indirect, TypeEnv.kind, TypeEnv.underlying, GoType.kind, ne_eq,
      not_true_eq_false, false_and, if_false]
    rw [indirectLoop_deref env (show env.underlying (.ptr t) = .ptr t from rfl) hm
      (show (Value.ptr (some x)).get [] = some (.ptr (some x)) from rfl) (fun h => nomatch h)]
    exact indirectLoop_stop env hp hi false _ n _ true false _
  simp only [decode_bin env cu16 other _ _ hbin, decodeWithOptionBin, TypeEnv.kind,
    TypeEnv.underlying, GoType.kind, if_true]
  rw [decodeBin_of_indirect env cu16 (o := none) rfl hind, Option.getD_none, decodeValue_loc]
  rfl

/-- A slice count or a string length of `2^63` or more at the front of the buffer:
`Decode` into a `*[]T` panics in `reflect.MakeSlice`, into a `*string` at the slice
expression of `ReadByteSlice`. -/
theorem decode_length_wraps (et : GoType) (xs : List Value) (bs : List UInt8) (n : Nat)
    (dec : Decoder) (hin : dec.InBounds) (hbin : dec.encoding = .bin) {x : Nat}
    (hx : 2 ^ 63 ≤ x) (hx' : x < 2 ^ 64) (s : List UInt8) (h : dec.rest = putUvarint x ++ s) :
    decode env cu16 other (n + 3) (some (.ptr (.slice et), .ptr (some (.slice xs)))) dec =
        .panic .reflectMakeSliceNegativeLen ∧
      decode env cu16 other (n + 3) (some (.ptr .string, .ptr (some (.string bs)))) dec =
        .panic .sliceBoundsOutOfRange := by
  constructor
  · rw [decode_ptr_plain env cu16 other (by simp [TypeEnv.kind, GoType.kind])
      (by simp [TypeEnv.kind, GoType.kind])
      (show env.methodOf (.ptr (.slice et)) = none from rfl) _ _ hbin]
    simp only [decodeKind, TypeEnv.underlying, newDefaultOption, DecM.bind_apply,
      DecM.map_apply, readUvarint64_putUvarint hin hx' h, Outcome.bind_ok, DecM.pure_apply,
      makeSlice, if_pos (toInt_neg hx hx'), DecM.panic_apply, Outcome.bind_panic]
  · rw [decode_ptr_plain env cu16 other (by simp [TypeEnv.kind, GoType.kind])
      (by simp [TypeEnv.kind, GoType.kind])
      (show env.methodOf (.ptr .string) = none from rfl) _ _ hbin]
    simp only [decodeKind, TypeEnv.underlying, DecM.map_apply, readString,
      readByteSlice_wrap cu16 hin hbin hx hx' h, Outcome.bind_panic]

/-- Under an optional directive, a settable value of a defined type whose pointer type has
a custom decoder: `indirect` returns the decoder with the zero `reflect.Value`, and each
branch of the presence-byte code then uses that value. -/
theorem decodeBin_optional_unmarshaler {N : String} {u : Unmarshaler}
    (hu : (env.decl N).unmarshaler = some u) {o : FieldOption} (ho : o.optionalField = true)
    (x : Value) (n : Nat) {dec : Decoder} (hin : dec.InBounds) :
    decodeBin env cu16 (n + 2) (.named N) true (some o) x dec = .panic .reflectZeroValue := by
  rw [decodeBin_optional env cu16 (o := some o) ho (indirect_unmarshaler env hu [] true n x)]
  rcases readByte_inBounds hin with h | ⟨b, h⟩
  · simp only [DecM.bind_apply, readPresence, h, RValue.type?, Outcome.bind_panic]
  · simp only [DecM.bind_apply, readPresence, h, Outcome.bind_ok]
    split
    · rfl
    · rfl

/-- An optional field of a defined non-pointer type whose pointer type has a custom decoder:
`decodeStruct` panics on it, whatever the buffer holds, the empty buffer included. -/
theorem optional_unmarshaler_field_panics {N : String} {u : Unmarshaler}
    (hu : (env.decl N).unmarshaler = some u) (name sizeOf : String) (order : ByteOrder)
    (fs : List (Field GoType)) (v : Value) (vs : List Value) (m : String → Option Int)
    (n : Nat) (dec : Decoder) (hin : dec.InBounds) :
    decodeFields env (decodeBin env cu16 (n + 2))
        (⟨name, true, ⟨sizeOf, false, order, true, false⟩, .named N⟩ :: fs) (v :: vs) m false
        dec = .panic .reflectZeroValue := by
  simp only [decodeFields, Bool.false_eq_true, if_false, Bool.not_false, Bool.and_false,
    Bool.or_false, Bool.not_true, DecM.bind_apply, DecM.pure_apply, Outcome.bind_ok]
  rw [decodeBin_optional_unmarshaler env cu16 hu
    (o := fieldOption ⟨name, true, ⟨sizeOf, false, order, true, false⟩, .named N⟩ m) rfl v n hin]
  rfl

/-- A signed `sizeof=` field read as a negative number: the slice it names is made with
that negative length, and `reflect.MakeSlice` panics. -/
theorem negative_size_panics (nF nS : String) (hS : nS ≠ "") (oF oS : ByteOrder)
    (et : GoType) (vF vS : Value) (n : Nat) {dec : Decoder} (hin : dec.InBounds) {b : UInt8}
    {r : List UInt8} (h : dec.rest = b :: r) (hb : 128 ≤ b.toNat) :
    decodeStruct env (decodeBin env cu16 (n + 3))
        [⟨nF, true, ⟨nS, false, oF, false, false⟩, .int8⟩,
          ⟨nS, true, ⟨"", false, oS, false, false⟩, .slice et⟩]
        [vF, vS] dec = .panic .reflectMakeSliceNegativeLen := by
  have hb' : toSigned 8 b.toNat < 0 := by
    have := b.toNat_lt_size
    unfold toSigned; rw [if_neg (by omega)]; simp only [UInt8.size] at this; omega
  have hread : readInt8 dec = .ok (toSigned 8 b.toNat) (dec.setPos (dec.pos + 1)) := by
    simp only [readInt8, DecM.bind_apply, readByte_cons hin.1 h, Outcome.bind_ok,
      DecM.pure_apply]
  simp only [decodeStruct, decodeFields, Bool.false_eq_true, if_false, Bool.not_false,
    Bool.and_false, Bool.or_false, Bool.not_true, DecM.bind_apply, DecM.pure_apply,
    Outcome.bind_ok, ne_eq, hS, not_false_eq_true, if_true]
  rw [decodeBin_plain env cu16 (t := .int8) nofun nofun rfl rfl]
  have hsize : sizeof env .int8 (.int (toSigned 8 b.toNat)) = pure (toSigned 8 b.toNat) := rfl
  simp only [decodeKind, TypeEnv.underlying, DecM.map_apply, hread,
    Outcome.bind_ok, DecM.pure_apply, hsize, DecM.bind_apply, Bool.false_eq_true, if_false]
  rw [decodeBin_plain env cu16 (t := .slice et) nofun nofun rfl rfl]
  simp only [decodeKind, TypeEnv.underlying, fieldOption, Function.update_same, DecM.bind_apply,
    DecM.pure_apply, Outcome.bind_ok, makeSlice, if_pos hb', DecM.panic_apply, Outcome.bind_panic]

end

/-- The optional field `F Custom` of `customEnv`, on the empty buffer. -/
theorem optional_unmarshaler_field_panics_empty :
    ((customEnv.decl "Custom").unmarshaler =
        some ⟨fun _ => (fun b => Value.uint b.toNat) <$> readByte⟩ ∧
      (newBinDecoder [] (by decide)).InBounds) ∧
    decodeFields customEnv (decodeBin customEnv .rejecting 2)
        [⟨"F", true, ⟨"", false, .littleEndian, true, false⟩, .named "Custom"⟩] [.uint 0]
        (fun _ => none) false (newBinDecoder [] (by decide)) = .panic .reflectZeroValue :=
  ⟨⟨rfl, inBounds_newDecoderWithEncoding _ _ _⟩,
    optional_unmarshaler_field_panics customEnv .rejecting (N := "Custom") rfl "F" "" .littleEndian
      [] (.uint 0)
      [] _ 0 _ (inBounds_newDecoderWithEncoding _ _ _)⟩

/-- `struct { Len int8 "sizeof=Items"; Items []uint8 }` on the byte `0xFF`, which is
`Len = -1`. -/
theorem negative_size_panics_ff :
    ("Items" ≠ "" ∧ (newBinDecoder [0xFF] (by decide)).InBounds ∧
      (newBinDecoder [0xFF] (by decide)).rest = 0xFF :: [] ∧ 128 ≤ (0xFF : UInt8).toNat) ∧
    decodeStruct customEnv (decodeBin customEnv .rejecting 3)
        [⟨"Len", true, ⟨"Items", false, .littleEndian, false, false⟩, .int8⟩,
          ⟨"Items", true, ⟨"", false, .littleEndian, false, false⟩, .slice .uint8⟩]
        [.int 0, .slice []] (newBinDecoder [0xFF] (by decide)) =
      .panic .reflectMakeSliceNegativeLen :=
  ⟨⟨by decide, inBounds_newDecoderWithEncoding _ _ _, rfl, by decide⟩,
    negative_size_panics customEnv .rejecting "Len" "Items" (by decide) .littleEndian
      .littleEndian .uint8 (.int 0) (.slice []) 0 (inBounds_newDecoderWithEncoding _ _ _) rfl
      (by decide)⟩

/-- The session of `NewBinDecoder` on the ten bytes of the uvarint `2^64 - 1`. -/
theorem decode_length_wraps_max :
    ((newBinDecoder (putUvarint (2 ^ 64 - 1)) (by decide)).InBounds ∧
      (newBinDecoder (putUvarint (2 ^ 64 - 1)) (by decide)).encoding = .bin ∧
      2 ^ 63 ≤ 2 ^ 64 - 1 ∧ 2 ^ 64 - 1 < 2 ^ 64 ∧
      (newBinDecoder (putUvarint (2 ^ 64 - 1)) (by decide)).rest =
        putUvarint (2 ^ 64 - 1) ++ []) ∧
    (decode customEnv .rejecting .failing 3 (some (.ptr (.slice .uint8), .ptr (some (.slice []))))
        (newBinDecoder (putUvarint (2 ^ 64 - 1)) (by decide)) =
        .panic .reflectMakeSliceNegativeLen ∧
      decode customEnv .rejecting .failing 3 (some (.ptr .string, .ptr (some (.string []))))
        (newBinDecoder (putUvarint (2 ^ 64 - 1)) (by decide)) =
        .panic .sliceBoundsOutOfRange) :=
  ⟨⟨inBounds_newDecoderWithEncoding _ _ _, rfl, by norm_num, by norm_num, by simp [rest,
      newBinDecoder, newDecoderWithEncoding]⟩,
    decode_length_wraps customEnv .rejecting .failing .uint8 [] [] 0 _
      (inBounds_newDecoderWithEncoding _ _ _) rfl (x := 2 ^ 64 - 1) (by norm_num) (by norm_num) []
      (by simp [rest, newBinDecoder, newDecoderWithEncoding])⟩

end BinDecoder
