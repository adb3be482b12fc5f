import BinDecoder.Types

/-!
# The `Decoder` session and its primitive reads

`Decoder` of `decoder.go` is a byte buffer, a cursor `pos` (a Go `int`) and the
encoding fixed at construction.  Every method is modelled as a function of the
session (`DecM`) that, like the Go method, either returns a result and leaves a new
session, returns an error (and still leaves a session: some reads have moved the
cursor before they fail), or panics.  A fourth outcome, `outOfFuel`, belongs to the
model: the recursive decoder of `BinDecoder.DecodeBin` runs on fuel, and the reads
here never produce it.

Go's bounds checks are kept: `dec.data[dec.pos]` and `dec.data[lo:hi]` panic outside the
buffer, and the arithmetic on `pos` and on lengths is 64-bit `int` arithmetic.  The
tracing (`traceEnabled`, `zlog`) has no effect on the session and is left out.
-/

namespace BinDecoder

/-- `Encoding`: the three wire formats. -/
inductive Encoding where
  | bin
  | borsh
  | compactU16
deriving DecidableEq, Repr

/-- The errors the decoder returns, one constructor per message of the source. -/
inductive DecodeError where
  /-- `"<what> required [n] bytes, remaining [r]"`: a read past the end of the buffer. -/
  | required (what : String) (n : Nat) (remaining : Int)
  /-- `ErrVarIntBufferSize`, `"varint: invalid buffer size"`. -/
  | varIntBufferSize
  /-- `"byte array: varlen=%d, missing %d bytes"`. -/
  | byteArray (varlen missing : Int)
  /-- `"NaN for float not allowed"` (Borsh only). -/
  | nanNotAllowed
  /-- `"readBool, %s"`. -/
  | readBool (e : DecodeError)
  /-- `"float128: %s"`. -/
  | float128 (e : DecodeError)
  /-- `Peek`'s `"n not valid: %d"`. -/
  | nNotValid (n : Int)
  /-- `"request to skip %d but only %d bytes remain"`. -/
  | skipBytes (count : Nat) (remaining : Int)
  /-- `"request to set position to %d outsize of buffer (buffer size %d)"`. -/
  | setPosition (idx size : Nat)
  /-- `"decode: %t isPresent, %s"`. -/
  | isPresent (t : GoType) (e : DecodeError)
  /-- `"decode: unsupported type %q"`. -/
  | unsupportedType (t : GoType)
  /-- `InvalidDecoderError`: `Decode` was given something other than a pointer. -/
  | invalidDecoder (t : Option GoType)
  /-- An error made by code outside `src/`: a type's own `UnmarshalBinary`. -/
  | external (msg : String)

/-- The panics the decoder can raise. -/
inductive Panic where
  /-- `runtime error: index out of range`. -/
  | indexOutOfRange
  /-- `runtime error: slice bounds out of range`. -/
  | sliceBoundsOutOfRange
  /-- `runtime error: makeslice: len out of range`, from `make([]byte, n)` with `n < 0` or
  with more than `maxAlloc` bytes. -/
  | makeSliceLen
  /-- `reflect.MakeSlice: negative len`. -/
  | reflectMakeSliceNegativeLen
  /-- `runtime: allocation size out of range`: `reflect.MakeSlice` of more than `maxAlloc`
  bytes. -/
  | allocationSizeOutOfRange
  /-- `reflect: call of reflect.Value.Type on zero Value`: a method of `reflect.Value{}`. -/
  | reflectZeroValue
  /-- `reflect: reflect.Value.Set using unaddressable value`. -/
  | reflectUnaddressable
  /-- `decodeStruct`: a non-extension field after a `binary_extension` one. -/
  | binaryExtensionOrder (field : String)
  /-- `sizeof`: `"sizeof field "`, on a size field that is not an integer. -/
  | sizeofField
  /-- A panic raised by code outside `src/`. -/
  | external

/-- The decoding session.  A Go slice holds fewer than `2^63` elements. -/
structure Decoder where
  data : List UInt8
  pos : Int
  encoding : Encoding
  data_lt : data.length < 2 ^ 63

/-- `NewDecoderWithEncoding(data, enc)`: a session at the start of `data`. -/
def newDecoderWithEncoding (data : List UInt8) (h : data.length < 2 ^ 63) (enc : Encoding) :
    Decoder :=
  ⟨data, 0, enc, h⟩

/-- `NewBinDecoder(data)`. -/
def newBinDecoder (data : List UInt8) (h : data.length < 2 ^ 63) : Decoder :=
  newDecoderWithEncoding data h .bin

/-- How a method of the decoder ends. -/
inductive Outcome (α : Type) where
  | ok (a : α) (dec : Decoder)
  | err (e : DecodeError) (dec : Decoder)
  | panic (p : Panic)
  | outOfFuel

/-- A method of the decoder, as a function of the session it runs on. -/
def DecM (α : Type) := Decoder → Outcome α

/-- Run the rest of a method on the outcome of its first call. -/
def Outcome.bind {α β : Type} (o : Outcome α) (f : α → DecM β) : Outcome β :=
  match o with
  | .ok a dec => f a dec
  | .err e dec => .err e dec
  | .panic p => .panic p
  | .outOfFuel => .outOfFuel

instance : Monad DecM where
  pure a dec := .ok a dec
  bind x f dec := (x dec).bind f

@[simp] theorem DecM.pure_apply {α : Type} (a : α) (dec : Decoder) :
    (pure a : DecM α) dec = .ok a dec := rfl

@[simp] theorem DecM.bind_apply {α β : Type} (x : DecM α) (f : α → DecM β) (dec : Decoder) :
    (x >>= f) dec = (x dec).bind f := rfl

theorem DecM.pure_bind {α β : Type} (a : α) (f : α → DecM β) : (pure a >>= f : DecM β) = f a :=
  rfl

@[simp] theorem Outcome.bind_ok {α β : Type} (a : α) (dec : Decoder) (f : α → DecM β) :
    (Outcome.ok a dec).bind f = f a dec := rfl

@[simp] theorem Outcome.bind_err {α β : Type} (e : DecodeError) (dec : Decoder) (f : α → DecM β) :
    (Outcome.err e dec).bind f = .err e dec := rfl

@[simp] theorem Outcome.bind_panic {α β : Type} (p : Panic) (f : α → DecM β) :
    (Outcome.panic p : Outcome α).bind f = .panic p := rfl

@[simp] theorem Outcome.bind_outOfFuel {α β : Type} (f : α → DecM β) :
    (Outcome.outOfFuel : Outcome α).bind f = .outOfFuel := rfl

/-- Return an error, leaving the session as it is. -/
def DecM.fail {α : Type} (e : DecodeError) : DecM α := fun dec => .err e dec

/-- Panic. -/
def DecM.panic {α : Type} (p : Panic) : DecM α := fun _ => .panic p

theorem DecM.panic_bind {α β : Type} (p : Panic) (f : α → DecM β) :
    (DecM.panic p >>= f : DecM β) = DecM.panic p :=
  rfl

namespace Decoder

/-- `dec.Remaining()`: `len(dec.data) - dec.pos`, a Go `int`. -/
def remaining (dec : Decoder) : Int := wrapInt (dec.data.length - dec.pos)

/-- The session with the cursor moved to `p`. -/
def setPos (dec : Decoder) (p : Int) : Decoder := { dec with pos := p }

@[simp] theorem setPos_data (dec : Decoder) (p : Int) : (dec.setPos p).data = dec.data := rfl
@[simp] theorem setPos_pos (dec : Decoder) (p : Int) : (dec.setPos p).pos = p := rfl
@[simp] theorem setPos_encoding (dec : Decoder) (p : Int) :
    (dec.setPos p).encoding = dec.encoding := rfl

end Decoder

/-- `dec.data[dec.pos:]`: the unread bytes; Go panics when `pos` lies outside the buffer. -/
def unread : DecM (List UInt8) := fun dec =>
  if 0 ≤ dec.pos ∧ dec.pos ≤ dec.data.length then .ok (dec.data.drop dec.pos.toNat) dec
  else .panic .sliceBoundsOutOfRange

/-- `dec.data[lo:hi]`; Go panics unless `0 ≤ lo ≤ hi ≤ len(dec.data)`. -/
def sliceData (lo hi : Int) : DecM (List UInt8) := fun dec =>
  if 0 ≤ lo ∧ lo ≤ hi ∧ hi ≤ dec.data.length then
    .ok ((dec.data.drop lo.toNat).take (hi - lo).toNat) dec
  else .panic .sliceBoundsOutOfRange

/-! ## Single-byte reads -/

/-- `ReadByte`. -/
def readByte : DecM UInt8 := fun dec =>
  if dec.remaining < 1 then .err (.required "" 1 dec.remaining) dec
  else if dec.pos < 0 then .panic .indexOutOfRange
  else .ok (dec.data.getD dec.pos.toNat 0) (dec.setPos (dec.pos + 1))

/-- `ReadBool`: a second bounds check in front of `ReadByte`, and any non-zero byte is `true`. -/
def readBool : DecM Bool := fun dec =>
  if dec.remaining < 1 then .err (.required "bool" 1 dec.remaining) dec
  else match readByte dec with
    | .ok b dec' => .ok (b ≠ 0) dec'
    | .err e dec' => .err (.readBool e) dec'
    | .panic p => .panic p
    | .outOfFuel => .outOfFuel

/-- `ReadUint8`. -/
def readUint8 : DecM UInt8 := readByte

/-- The signed reading of a `w`-bit pattern `n` (Go's `int8(b)`, `int16(n)`, ...). -/
def toSigned (w n : Nat) : Int := if n < 2 ^ (w - 1) then n else (n : Int) - 2 ^ w

/-- `ReadInt8`. -/
def readInt8 : DecM Int := do
  let b ← readByte
  pure (toSigned 8 b.toNat)

/-! ## Fixed-width reads -/

/-- The common body of `ReadUint16` and `ReadUint32`: check that `w` bytes remain, then
read them from `dec.data[dec.pos:]` in byte order `order`. -/
def readFixed (what : String) (w : Nat) (order : ByteOrder) : DecM Nat := fun dec =>
  if dec.remaining < w then .err (.required what w dec.remaining) dec
  else if dec.pos < 0 then .panic .sliceBoundsOutOfRange
  else .ok (order.uint w (dec.data.drop dec.pos.toNat)) (dec.setPos (dec.pos + w))

/-- `ReadUint16`. -/
def readUint16 (order : ByteOrder) : DecM Nat := readFixed "uint16" 2 order

/-- `ReadUint32`. -/
def readUint32 (order : ByteOrder) : DecM Nat := readFixed "uint32" 4 order

/-- `ReadInt16`. -/
def readInt16 (order : ByteOrder) : DecM Int := do
  let n ← readUint16 order
  pure (toSigned 16 n)

/-- `ReadInt32`. -/
def readInt32 (order : ByteOrder) : DecM Int := do
  let n ← readUint32 order
  pure (toSigned 32 n)

/-- The loop of `readNBytes`: `n` calls of `ReadByte`, stopping at the first error. -/
def readBytes : Nat → DecM (List UInt8)
  | 0 => pure []
  | n + 1 => do
    let b ← readByte
    let bs ← readBytes n
    pure (b :: bs)

/-- `runtime.maxAlloc` on 64-bit Linux, `1 << heapAddrBits` with `heapAddrBits = 48`: the
runtime allocates no object of more bytes. -/
def maxAlloc : Nat := 2 ^ 48

/-- `readNBytes(n, dec)`, alias `ReadNBytes`: `make([]byte, n)` panics when `n < 0` or when
`n` bytes are more than one object may take. -/
def readNBytes (n : Int) : DecM (List UInt8) := fun dec =>
  if n < 0 ∨ (maxAlloc : Int) < n then .panic .makeSliceLen else readBytes n.toNat dec

/-- A length `make` accepts: `readNBytes` is the loop of `ReadByte`s. -/
theorem readNBytes_of_le {n : Int} (h₀ : 0 ≤ n) (h : n ≤ maxAlloc) (dec : Decoder) :
    readNBytes n dec = readBytes n.toNat dec := by
  rw [readNBytes, if_neg (by omega)]

/-- `ReadNBytes(8)`, as `ReadUint64` and `ReadTypeID` call it. -/
theorem readNBytes_eight (dec : Decoder) : readNBytes 8 dec = readBytes 8 dec :=
  readNBytes_of_le (by decide) (by decide) dec

/-- `ReadUint64`: unlike its siblings it reads its bytes through `ReadNBytes(8)`. -/
def readUint64 (order : ByteOrder) : DecM Nat := fun dec =>
  if dec.remaining < 8 then .err (.required "decode: uint64" 8 dec.remaining) dec
  else (do
    let data ← readNBytes 8
    pure (order.uint 8 data)) dec

/-- `ReadInt64`. -/
def readInt64 (order : ByteOrder) : DecM Int := do
  let n ← readUint64 order
  pure (toSigned 64 n)

/-- `Uint128`, as its two 64-bit halves. -/
structure Uint128 where
  lo : Nat
  hi : Nat
deriving DecidableEq, Repr

/-- `ReadUint128`: two 64-bit words, the low one first in little-endian order and the
high one first otherwise. -/
def readUint128 (order : ByteOrder) : DecM Uint128 := fun dec =>
  if dec.remaining < 16 then .err (.required "uint128" 16 dec.remaining) dec
  else (do
    let data ← sliceData dec.pos (dec.pos + 16)
    let out : Uint128 :=
      if order = ByteOrder.littleEndian then ⟨order.uint 8 (data.take 8), order.uint 8 (data.drop 8)⟩
      else ⟨order.uint 8 (data.drop 8), order.uint 8 (data.take 8)⟩
    fun dec' => .ok out (dec'.setPos (dec'.pos + 16))) dec

/-- `ReadInt128`: the same 128 bits. -/
def readInt128 (order : ByteOrder) : DecM Uint128 := readUint128 order

/-- `ReadFloat128`: the same 128 bits, with its error wrapped. -/
def readFloat128 (order : ByteOrder) : DecM Uint128 := fun dec =>
  match readUint128 order dec with
  | .err e dec' => .err (.float128 e) dec'
  | o => o

/-- `ReadFloat32`, as the bit pattern.  Under Borsh a NaN is refused after the cursor
has moved. -/
def readFloat32 (order : ByteOrder) : DecM Nat := fun dec =>
  if dec.remaining < 4 then .err (.required "float32" 4 dec.remaining) dec
  else if dec.pos < 0 then .panic .sliceBoundsOutOfRange
  else
    let n := order.uint 4 (dec.data.drop dec.pos.toNat)
    let dec' := dec.setPos (dec.pos + 4)
    if dec.encoding = .borsh ∧ isNaN32 n then .err .nanNotAllowed dec' else .ok n dec'

/-- `ReadFloat64`, as the bit pattern. -/
def readFloat64 (order : ByteOrder) : DecM Nat := fun dec =>
  if dec.remaining < 8 then .err (.required "float64" 8 dec.remaining) dec
  else if dec.pos < 0 then .panic .sliceBoundsOutOfRange
  else
    let n := order.uint 8 (dec.data.drop dec.pos.toNat)
    let dec' := dec.setPos (dec.pos + 8)
    if dec.encoding = .borsh ∧ isNaN64 n then .err .nanNotAllowed dec' else .ok n dec'

/-! ## Varints -/

/-- `ReadUvarint64`. -/
def readUvarint64 : DecM Nat := do
  let buf ← unread
  fun dec =>
    let (l, read) := uvarint buf
    if read ≤ 0 then .err .varIntBufferSize dec else .ok l (dec.setPos (dec.pos + read))

/-- `ReadVarint64`. -/
def readVarint64 : DecM Int := do
  let buf ← unread
  fun dec =>
    let (l, read) := varint buf
    if read ≤ 0 then .err .varIntBufferSize dec else .ok l (dec.setPos (dec.pos + read))

/-- `ReadUvarint32`: `uint32(n)`. -/
def readUvarint32 : DecM Nat := do
  let n ← readUvarint64
  pure (n % 2 ^ 32)

/-- `ReadUvarint16`: `uint16(n)`. -/
def readUvarint16 : DecM Nat := do
  let n ← readUvarint64
  pure (n % 2 ^ 16)

/-- `ReadVarint32`: `int32(n)`. -/
def readVarint32 : DecM Int := do
  let n ← readVarint64
  pure (toSigned 32 (n % 2 ^ 32).toNat)

/-- `ReadVarint16`: `int16(n)`. -/
def readVarint16 : DecM Int := do
  let n ← readVarint64
  pure (toSigned 16 (n % 2 ^ 16).toNat)

/-! ## Length-prefixed reads -/

/-- Modelled from the spec: the compact-u16 length decoder
(`DecodeCompactU16LengthFromByteReader`), an external collaborator that "returns a
non-negative integer length plus bytes consumed, or fails if the source is exhausted
mid-encoding".  `decode bs` is the length and the number of bytes it takes from the
front of `bs`, or `none` when `bs` ends inside it; it reads them one at a time through
`ReadByte`. -/
structure CompactU16 where
  decode : List UInt8 → Option (Nat × Nat)
  consumed : ∀ bs l k, decode bs = some (l, k) → 0 < k ∧ k ≤ bs.length
  length_lt : ∀ bs l k, decode bs = some (l, k) → l < 2 ^ 63

/-- A compact-u16 decoder that finds a length in no input: the weakest decoder the
contract allows. -/
def CompactU16.rejecting : CompactU16 :=
  ⟨fun _ => none, fun _ _ _ h => (nomatch h), fun _ _ _ h => (nomatch h)⟩

section Length

variable (cu16 : CompactU16)

/-- `DecodeCompactU16LengthFromByteReader(dec)` on the session: on success the cursor has
moved past the bytes read; on failure every remaining byte has been read and the last
`ReadByte` failed. -/
def readCompactU16 : DecM Nat := do
  let buf ← unread
  fun dec => match cu16.decode buf with
    | some (l, k) => .ok l (dec.setPos (dec.pos + k))
    | none => .err (.required "" 1 0) (dec.setPos dec.data.length)

/-- `ReadCompactU16Length`. -/
def readCompactU16Length : DecM Nat := readCompactU16 cu16

/-- `ReadLength`: where the three encodings differ.  Bin reads a uvarint and converts it
with `int(val)`, Borsh a little-endian `uint32`, compact-u16 the external format. -/
def readLength : DecM Int := fun dec =>
  match dec.encoding with
  | .bin => (do let val ← readUvarint64; pure (toInt val)) dec
  | .borsh => (do let val ← readUint32 LE; pure (val : Int)) dec
  | .compactU16 => (do let val ← readCompactU16 cu16; pure (val : Int)) dec

/-- `ReadByteSlice`: the length, then `dec.data[dec.pos : dec.pos+length]`, all in Go
`int` arithmetic. -/
def readByteSlice : DecM (List UInt8) := do
  let length ← readLength cu16
  fun dec =>
    let hi := wrapInt (dec.pos + length)
    if (dec.data.length : Int) < hi then
      .err (.byteArray length (wrapInt (hi - dec.data.length))) dec
    else (do
      let out ← sliceData dec.pos hi
      fun dec' => .ok out (dec'.setPos hi)) dec

/-- `ReadString`: the bytes of `ReadByteSlice`. -/
def readString : DecM (List UInt8) := readByteSlice cu16

end Length

/-- The length of the well-formed UTF-8 sequence at the front of `b₀ :: bs`
(`utf8.DecodeRuneInString`), or `0` when it is not one. -/
def utf8Width (b₀ : UInt8) (bs : List UInt8) : Nat :=
  let cont (lo hi : Nat) (i : Nat) : Bool :=
    match bs[i]? with
    | some b => lo ≤ b.toNat && b.toNat ≤ hi
    | none => false
  let x := b₀.toNat
  if x < 0x80 then 1
  else if 0xC2 ≤ x ∧ x ≤ 0xDF then (if cont 0x80 0xBF 0 then 2 else 0)
  else if x = 0xE0 then (if cont 0xA0 0xBF 0 && cont 0x80 0xBF 1 then 3 else 0)
  else if x = 0xED then (if cont 0x80 0x9F 0 && cont 0x80 0xBF 1 then 3 else 0)
  else if 0xE1 ≤ x ∧ x ≤ 0xEF then (if cont 0x80 0xBF 0 && cont 0x80 0xBF 1 then 3 else 0)
  else if x = 0xF0 then
    (if cont 0x90 0xBF 0 && cont 0x80 0xBF 1 && cont 0x80 0xBF 2 then 4 else 0)
  else if x = 0xF4 then
    (if cont 0x80 0x8F 0 && cont 0x80 0xBF 1 && cont 0x80 0xBF 2 then 4 else 0)
  else if 0xF1 ≤ x ∧ x ≤ 0xF3 then
    (if cont 0x80 0xBF 0 && cont 0x80 0xBF 1 && cont 0x80 0xBF 2 then 4 else 0)
  else 0

/-- `strings.Map(fixUtf, s)`: every byte that does not start a well-formed UTF-8 sequence
becomes `U+FFFD` (`EF BF BD`); well-formed sequences are kept. -/
def mapFixUtf : List UInt8 → List UInt8
  | [] => []
  | b :: bs =>
    match h : utf8Width b bs with
    | 0 => [0xEF, 0xBF, 0xBD] ++ mapFixUtf bs
    | k + 1 => (b :: bs.take k) ++ mapFixUtf (bs.drop k)
termination_by l => l.length
decreasing_by all_goals simp_wf <;> omega

section Strings

variable (cu16 : CompactU16)

/-- `SafeReadUTF8String`. -/
def safeReadUTF8String : DecM (List UInt8) := do
  let data ← readByteSlice cu16
  pure (mapFixUtf data)

end Strings

/-- `ReadRustString`: an 8-byte little-endian length, then that many bytes through
`ReadNBytes(int(length))`. -/
def readRustString : DecM (List UInt8) := do
  let length ← readUint64 .littleEndian
  readNBytes (toInt length)

/-- `ReadTypeID`: eight bytes (`TypeIDFromBytes` keeps them as they are). -/
def readTypeID : DecM (List UInt8) := readNBytes 8

/-! ## Cursor operations -/

/-- `Peek(n)`: the next `n` bytes, leaving the cursor where it is. -/
def peek (n : Int) : DecM (List UInt8) := fun dec =>
  if n < 0 then .err (.nNotValid n) dec
  else if dec.remaining < n then .err (.required "" n.toNat dec.remaining) dec
  else sliceData dec.pos (wrapInt (dec.pos + n)) dec

/-- `SkipBytes(count)`, `count` a `uint`. -/
def skipBytes (count : Nat) : DecM Unit := fun dec =>
  if toUint dec.remaining < count then .err (.skipBytes count dec.remaining) dec
  else .ok () (dec.setPos (wrapInt (dec.pos + toInt count)))

/-- `SetPosition(idx)`, `idx` a `uint`: the bound is checked on `int(idx)`. -/
def setPosition (idx : Nat) : DecM Unit := fun dec =>
  if toInt idx < dec.data.length then .ok () (dec.setPos (toInt idx))
  else .err (.setPosition idx dec.data.length) dec

/-- `Position()`. -/
def position : DecM Nat := fun dec => .ok (toUint dec.pos) dec

/-- `HasRemaining()`. -/
def hasRemaining : DecM Bool := fun dec => .ok (0 < dec.remaining) dec

end BinDecoder
