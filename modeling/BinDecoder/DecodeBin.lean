import BinDecoder.Reflect

/-!
# The recursive decoder: `decodeBin` and `decodeStruct`

`decodeWithOptionBin`, `decodeBin` and `decodeStruct` of `src/unnamed/part_000`, and
`sizeof` of `src/decoder.go`.  One call of `decodeBin` takes the destination's type and
value and gives the destination's new value; the elements of an array or slice and the
fields of a struct are decoded by calls of their own, which is what the Go code does
through `rv.Index(i)` and `rv.Field(i)` since no two of them share storage.

The body of `decodeBin` is cut where the Go code has its steps:
`indirect`, then for an optional directive the presence byte (`readPresence`, `setZero`)
and a second `indirect`, then `decodeValue`: the custom decoder if `indirect` found one,
or else the dispatch on the kind (`decodeKind`), with `decodeElems` for arrays and slices
and `decodeFields` for the loop of `decodeStruct`.  These take the recursive call as an
argument `rec`.

Go's `decodeBin` does not terminate on a type such as `type P *P`, whose `indirect` never
stops allocating, so the model runs on fuel: `decodeBin n` gives up with `outOfFuel`
when the destination is nested deeper than `n`, and its `indirect` gets `n` rounds.  When
a call returns an error, the destination is left out of the outcome: Go leaves it
partly written.
-/

namespace BinDecoder

/-- `option`: the directive one `decodeBin` call decodes under. -/
structure FieldOption where
  optionalField : Bool
  order : ByteOrder
  sizeOfSlice : Option Int

/-- Modelled from the spec: `newDefaultOption()`, the directive of a value with no tag
("big/native default order, not optional, ... no linkage"). -/
def newDefaultOption : FieldOption := ⟨false, .bigEndian, none⟩

/-- Run `indirect` inside a method of the session; it reads nothing. -/
def resolve {α : Type} : Option (Except Panic α) → DecM α
  | some (.ok a) => pure a
  | some (.error p) => DecM.panic p
  | none => fun _ => .outOfFuel

/-- The value at a path of the destination; the paths `indirect` returns exist. -/
def Value.at (r : Value) (p : List Step) : Value := (r.get p).getD (.other 0)

section

variable (env : TypeEnv) (cu16 : CompactU16)

/-- `sizeof(t, v)`: the size a `sizeof=` field hands to the slice it names. -/
def sizeof (t : GoType) (v : Value) : DecM Int :=
  match env.kind t, v with
  | .int, .int i | .int8, .int i | .int16, .int i | .int32, .int i | .int64, .int i =>
    pure i
  | .uint, .uint n | .uint8, .uint n | .uint16, .uint n | .uint32, .uint n
  | .uint64, .uint n =>
    let n := toInt n
    pure (if n < 0 then 0 else n)
  | _, _ => DecM.panic .sizeofField

/-- `sizeof` returns a number or panics, and reads nothing. -/
theorem sizeof_cases (t : GoType) (v : Value) :
    (∃ i, sizeof env t v = pure i) ∨ sizeof env t v = DecM.panic .sizeofField := by
  unfold sizeof
  split
  all_goals first | exact .inl ⟨_, rfl⟩ | exact .inr rfl

/-- The presence byte of an optional value: `ReadByte`, its error wrapped with
`rv.Type()`. -/
def readPresence (rv : RValue) : DecM UInt8 := fun dec =>
  match readByte dec with
  | .err e dec' =>
    match rv.type? with
    | some t => .err (.isPresent t e) dec'
    | none => .panic .reflectZeroValue
  | o => o

/-- `rv.Set(reflect.Zero(rv.Type()))`, for an absent optional value. -/
def setZero (rv : RValue) (r : Value) : DecM Value :=
  match rv with
  | .loc t p true => pure (r.set p (env.zero t))
  | .loc _ _ false | .addr _ _ => DecM.panic .reflectUnaddressable
  | .invalid => DecM.panic .reflectZeroValue

/-- A recursive call of `decodeBin`: the type, whether the value is settable, the
directive, and the value. -/
abbrev DecodeFn := GoType → Bool → Option FieldOption → Value → DecM Value

/-- The loops of the array and slice cases: `dec.decodeBin(rv.Index(i), opt)` for each
element in turn, stopping at the first error. -/
def decodeElems (rec : DecodeFn) (et : GoType) (opt : FieldOption) :
    List Value → DecM (List Value)
  | [] => pure []
  | x :: xs => do
    let x ← rec et true (some opt) x
    let xs ← decodeElems rec et opt xs
    pure (x :: xs)

/-- The directive `decodeStruct` builds for a field: its tag's `optional` and byte order,
and the size a `sizeof=` field before it gave under its name. -/
def fieldOption (f : Field GoType) (sizeOfMap : String → Option Int) : FieldOption :=
  ⟨f.tag.optional, f.tag.order, sizeOfMap f.name⟩

/-- The loop of `decodeStruct` over the fields from the current one on, with the loop's
state: `sizeOfMap` and `seenBinaryExtensionField`.  An unexported field is not settable
and its address is not settable either, so it is skipped. -/
def decodeFields (rec : DecodeFn) :
    List (Field GoType) → List Value → (String → Option Int) → Bool → DecM (List Value)
  | f :: fs, v :: vs, sizeOfMap, seen =>
    if f.tag.skip then (v :: ·) <$> decodeFields rec fs vs sizeOfMap seen
    else if !f.tag.binaryExtension && seen then DecM.panic (.binaryExtensionOrder f.name)
    else
      (if f.tag.binaryExtension then (fun b => decide (b.length = 0)) <$> unread
        else pure false) >>= fun exhausted =>
      if exhausted || !f.exported then
        (v :: ·) <$> decodeFields rec fs vs sizeOfMap (seen || f.tag.binaryExtension)
      else
        rec f.type true (some (fieldOption f sizeOfMap)) v >>= fun v =>
        (if f.tag.sizeOf ≠ "" then
            (fun size => Function.update sizeOfMap f.tag.sizeOf (some size)) <$>
              sizeof env f.type v
          else pure sizeOfMap) >>= fun sizeOfMap =>
        (v :: ·) <$> decodeFields rec fs vs sizeOfMap (seen || f.tag.binaryExtension)
  | _, vs, _, _ => pure vs

/-- `decodeStruct(rt, rv)`. -/
def decodeStruct (rec : DecodeFn) (fs : List (Field GoType)) (vs : List Value) :
    DecM (List Value) :=
  decodeFields env rec fs vs (fun _ => none) false

/-- `reflect.MakeSlice(rt, l, l)` with elements of type `et`: `l` zero elements, or the
panic of a negative length, or, from `unsafe_NewArray`, of more than `maxAlloc` bytes
(the runtime does not check an array of one element). -/
def makeSlice (et : GoType) (l : Int) : DecM (List Value) :=
  if l < 0 then DecM.panic .reflectMakeSliceNegativeLen
  else if l ≠ 1 ∧ maxAlloc < env.size et * l.toNat then DecM.panic .allocationSizeOutOfRange
  else pure (List.replicate l.toNat (env.zero et))

/-- `makeSlice` panics, or gives `l` zero elements; it reads nothing. -/
theorem makeSlice_cases (et : GoType) (l : Int) :
    (∃ p, makeSlice env et l = DecM.panic p ∧
        (p = .reflectMakeSliceNegativeLen ∨ p = .allocationSizeOutOfRange)) ∨
      0 ≤ l ∧ makeSlice env et l = pure (List.replicate l.toNat (env.zero et)) := by
  unfold makeSlice
  split_ifs with h₁ h₂
  · exact .inl ⟨_, rfl, .inl rfl⟩
  · exact .inl ⟨_, rfl, .inr rfl⟩
  · exact .inr ⟨by omega, rfl⟩

/-- A length the runtime accepts: `makeSlice` gives the zero elements. -/
theorem makeSlice_of_nonneg {et : GoType} {l : Int} (h₀ : 0 ≤ l)
    (h : l.toNat = 1 ∨ env.size et * l.toNat ≤ maxAlloc) :
    makeSlice env et l = pure (List.replicate l.toNat (env.zero et)) := by
  unfold makeSlice
  rw [if_neg (by omega), if_neg (by omega)]

theorem makeSlice_of_le {et : GoType} {l : Nat} (h : l = 1 ∨ env.size et * l ≤ maxAlloc) :
    makeSlice env et l = pure (List.replicate l (env.zero et)) := by
  rw [makeSlice_of_nonneg env (Int.natCast_nonneg l) (by rwa [Int.toNat_natCast]),
    Int.toNat_natCast]

/-- The two `switch`es of `decodeBin` on the kind of the value `indirect` stopped at. -/
def decodeKind (rec : DecodeFn) (opt : FieldOption) (t : GoType) (x : Value) : DecM Value :=
  match env.underlying t with
  | .string => (.string ·) <$> readString cu16
  | .uint8 => (fun n => .uint n.toNat) <$> readByte
  | .int8 => (.int ·) <$> readInt8
  | .int16 => (.int ·) <$> readInt16 opt.order
  | .int32 => (.int ·) <$> readInt32 opt.order
  | .int64 => (.int ·) <$> readInt64 opt.order
  | .uint16 => (.uint ·) <$> readUint16 opt.order
  | .uint32 => (.uint ·) <$> readUint32 opt.order
  | .uint64 => (.uint ·) <$> readUint64 opt.order
  | .float32 => (fun n => .float (float32RoundTrip n)) <$> readFloat32 opt.order
  | .float64 => (.float ·) <$> readFloat64 opt.order
  | .bool => (.bool ·) <$> readBool
  | .iface => pure x
  | .array _ et => (.array ·) <$> decodeElems rec et opt x.elems
  | .slice et =>
    (match opt.sizeOfSlice with
      | some l => pure l
      | none => toInt <$> readUvarint64) >>= fun l =>
    makeSlice env et l >>= fun xs => (.slice ·) <$> decodeElems rec et opt xs
  | .struct fs => (.struct ·) <$> decodeStruct env rec fs x.fields
  | _ => DecM.fail (.unsupportedType t)

/-- What follows `indirect` in `decodeBin`: the custom decoder on its receiver, or the
dispatch on the kind of the value `indirect` stopped at. -/
def decodeValue (rec : DecodeFn) (opt : FieldOption)
    (u : Option (Unmarshaler × List Step)) (rv : RValue) (r : Value) : DecM Value :=
  match u, rv with
  | some (um, p), _ => (r.set p ·) <$> um.unmarshalBinary (r.at p)
  | none, .loc t p _ => (r.set p ·) <$> decodeKind env cu16 rec opt t (r.at p)
  | none, .addr t _ => DecM.fail (.unsupportedType (.ptr t))
  | none, .invalid => DecM.panic .reflectZeroValue

/-- `decodeBin(rv, opt)` on fuel `n`: `t` and `x` are the type and value of the
destination `rv`, `settable` is `rv.CanSet()`. -/
def decodeBin : Nat → DecodeFn
  | 0, _, _, _, _ => fun _ => .outOfFuel
  | n + 1, t, settable, opt, x =>
    let opt := opt.getD newDefaultOption
    do
    let ⟨u, rv, x⟩ ← resolve (indirect env n (.loc t [] settable) opt.optionalField x)
    if opt.optionalField then
      let isPresent ← readPresence rv
      if isPresent = 0 then setZero env rv x
      else
        let ⟨u, rv, x⟩ ← resolve (indirect env n rv false x)
        decodeValue env cu16 (decodeBin n) opt u rv x
    else decodeValue env cu16 (decodeBin n) opt u rv x

/-- `decodeWithOptionBin(v, option)`: `v` is the `interface{}` argument, nil or its
dynamic type and value, and the result is the argument's new value. -/
def decodeWithOptionBin (fuel : Nat) (v : Option (GoType × Value))
    (option : Option FieldOption) : DecM Value :=
  match v with
  | some (t, x) =>
    if env.kind t = .ptr then decodeBin env cu16 fuel t false option x
    else DecM.fail (.invalidDecoder (some t))
  | none => DecM.fail (.invalidDecoder none)

/-- `decodeWithOptionBorsh` and `decodeWithOptionCompactU16`, which `Decode` calls on
sessions in the other two encodings.  They are not in the source: each, like
`decodeWithOptionBin`, takes the argument of `Decode` and gives its new value. -/
structure OtherDecoders where
  borsh : Option (GoType × Value) → DecM Value
  compactU16 : Option (GoType × Value) → DecM Value

/-- Other decoders that refuse every argument. -/
def OtherDecoders.failing : OtherDecoders :=
  ⟨fun _ => DecM.fail (.external "borsh"), fun _ => DecM.fail (.external "compactU16")⟩

/-- `dec.Decode(v)`: the session's encoding picks the decoder. -/
def decode (other : OtherDecoders) (fuel : Nat) (v : Option (GoType × Value)) : DecM Value :=
  fun dec =>
    match dec.encoding with
    | .bin => decodeWithOptionBin env cu16 fuel v none dec
    | .borsh => other.borsh v dec
    | .compactU16 => other.compactU16 v dec

/-- On a session in the Bin encoding, `Decode` is `decodeWithOptionBin`. -/
theorem decode_bin (other : OtherDecoders) (fuel : Nat) (v : Option (GoType × Value))
    {dec : Decoder} (h : dec.encoding = .bin) :
    decode env cu16 other fuel v dec = decodeWithOptionBin env cu16 fuel v none dec := by
  simp only [decode, h]

end

end BinDecoder
