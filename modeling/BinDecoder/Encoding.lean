import BinDecoder.DecodeBin

/-!
# The Bin wire format

The reference encoding that Bin-mode `Decode` undoes.  The repository has no encoder, so
everything in this file is modelled from the specification: the encoding of a value of a
type under the directive it is decoded with.

* A fixed-width scalar is its bits at its width, in the directive's byte order; a `bool`
  is one byte, `0` or `1`.
* A string is its length as a uvarint, then its bytes.
* A pointer is the value it points to.
* An array is its elements; a slice is its element count as a uvarint, left out when the
  directive links the count to a size field, then its elements.  Every element is
  encoded under the directive of the array or slice.
* A struct is its exported fields that are not skipped, in order, each under the
  directive built from its tag; a `sizeof` field hands its value to the field it names.
* Under an optional directive a value is preceded by a presence byte: a nil pointer is
  the byte `0` alone, anything else is `1` followed by its encoding.

`encodable` says which values this covers: values of their type, with no interface, no
custom decoder, no `binary_extension` field and no nil pointer outside an optional
directive, whose linked slices have the length their size field gives.  One condition
comes from the Go runtime rather than the format: a slice of more than one element
takes at most `maxAlloc` bytes, since `reflect.MakeSlice` refuses a larger one.  `canon` is the
value decoding gives back: skipped and unexported fields are zero, and a float32 NaN has
its quiet bit set, since the Go code passes every float32 through a float64.
-/

namespace BinDecoder

/-- Modelled from the spec: the width in bytes of a fixed-width scalar type. -/
def scalarWidth : GoType → Nat
  | .int8 | .uint8 => 1
  | .int16 | .uint16 => 2
  | .int32 | .uint32 | .float32 => 4
  | .int64 | .uint64 | .float64 => 8
  | _ => 0

/-- A nil pointer. -/
def Value.isNilPtr : Value → Bool
  | .ptr none => true
  | _ => false

theorem Value.isNilPtr_eq_true {x : Value} : x.isNilPtr = true ↔ x = .ptr none := by
  rcases x with _ | _ | _ | _ | _ | _ | _ | (_ | _) | _ | _ | _ <;> simp [Value.isNilPtr]

/-- The number an integer value holds. -/
def Value.asInt : Value → Option Int
  | .int i => some i
  | .uint n => some n
  | _ => none

/-- The fields of a struct type. -/
def TypeEnv.fieldsOf (env : TypeEnv) (t : GoType) : List (Field GoType) :=
  match env.underlying t with
  | .struct fs => fs
  | _ => []

/-- Modelled from the spec: the directive of a field, from its tag and the size that a
field before it linked to its name. -/
def fieldDirective (f : Field GoType) (links : String → Option Int) : FieldOption :=
  ⟨f.tag.optional, f.tag.order, links f.name⟩

/-- Modelled from the spec: the size links after a field; a `sizeof` field that is
decoded gives its value to the field it names. -/
def nextLinks (f : Field GoType) (v : Value) (links : String → Option Int) :
    String → Option Int :=
  if f.tag.skip || !f.exported || f.tag.sizeOf = "" then links
  else Function.update links f.tag.sizeOf v.asInt

/-- Modelled from the spec: the presence byte an optional directive puts in front of a
value's encoding. -/
def withPresence (opt : FieldOption) (x : Value) (body : List UInt8) : List UInt8 :=
  if opt.optionalField then (if x.isNilPtr then [0] else 1 :: body) else body

section

variable (env : TypeEnv)

mutual
/-- Modelled from the spec: the encoding of a value of type `t` under the directive
`opt`, without a presence byte. -/
def encodeBody (opt : FieldOption) (t : GoType) : Value → List UInt8
  | .bool b => [if b then 1 else 0]
  | .int i => opt.order.putUint (scalarWidth (env.underlying t)) (toUint i)
  | .uint n => opt.order.putUint (scalarWidth (env.underlying t)) n
  | .float bits => opt.order.putUint (scalarWidth (env.underlying t)) bits
  | .string bs => putUvarint bs.length ++ bs
  | .array xs => encodeElems opt (env.elem t) xs
  | .slice xs =>
    (if opt.sizeOfSlice.isSome then [] else putUvarint xs.length) ++
      encodeElems opt (env.elem t) xs
  | .ptr (some y) => encodeBody opt (env.elem t) y
  | .struct vs => encodeFields (env.fieldsOf t) vs fun _ => none
  | .ptr none | .iface _ | .other _ => []

/-- Modelled from the spec: the elements of an array or a slice, each under the directive
of the whole. -/
def encodeElems (opt : FieldOption) (et : GoType) : List Value → List UInt8
  | [] => []
  | x :: xs => withPresence opt x (encodeBody opt et x) ++ encodeElems opt et xs

/-- Modelled from the spec: the fields of a struct, in declaration order. -/
def encodeFields : List (Field GoType) → List Value → (String → Option Int) → List UInt8
  | f :: fs, v :: vs, links =>
    (if f.tag.skip || !f.exported then []
      else withPresence (fieldDirective f links) v (encodeBody (fieldDirective f links) f.type v)) ++
      encodeFields fs vs (nextLinks f v links)
  | _, _, _ => []
end

/-- Modelled from the spec: the encoding of a value under a directive, presence byte
included. -/
def encode (opt : FieldOption) (t : GoType) (x : Value) : List UInt8 :=
  withPresence opt x (encodeBody env opt t x)

mutual
/-- Modelled from the spec: the value that decoding the encoding of `x` gives back. -/
def canon (t : GoType) : Value → Value
  | .float bits =>
    .float (match env.underlying t with
      | .float32 => float32RoundTrip bits
      | _ => bits)
  | .array xs => .array (canonElems (env.elem t) xs)
  | .slice xs => .slice (canonElems (env.elem t) xs)
  | .ptr (some y) => .ptr (some (canon (env.elem t) y))
  | .struct vs => .struct (canonFields (env.fieldsOf t) vs)
  | .bool b => .bool b
  | .int i => .int i
  | .uint n => .uint n
  | .string bs => .string bs
  | .ptr none => .ptr none
  | .iface d => .iface d
  | .other n => .other n

/-- Modelled from the spec: `canon` of each element. -/
def canonElems (et : GoType) : List Value → List Value
  | [] => []
  | x :: xs => canon et x :: canonElems et xs

/-- Modelled from the spec: a field that is skipped or unexported is never decoded and
stays zero. -/
def canonFields : List (Field GoType) → List Value → List Value
  | f :: fs, v :: vs =>
    (if f.tag.skip || !f.exported then env.zero f.type else canon f.type v) ::
      canonFields fs vs
  | _, _ => []
end

/-- Modelled from the spec: a nil pointer is encodable only under an optional
directive, where it is absent. -/
def presenceOk (opt : FieldOption) (t : GoType) (x : Value) (body : Bool) : Bool :=
  if opt.optionalField && x.isNilPtr then env.kind t = .ptr else body

/-- Modelled from the spec: a `sizeof` field is an integer. -/
def sizeFieldOk (t : GoType) : Value → Bool
  | .int _ =>
    match env.underlying t with
    | .int8 | .int16 | .int32 | .int64 => true
    | _ => false
  | .uint _ =>
    match env.underlying t with
    | .uint8 | .uint16 | .uint32 | .uint64 => true
    | _ => false
  | _ => false

mutual
/-- Modelled from the spec: `x` is a value of type `t` that the reference encoding covers
under `opt`: no custom decoder, no interface, no nil pointer, every slice as long as a
size link says and, for the runtime, no slice of more than one element past `maxAlloc`
bytes. -/
def encodableBody (opt : FieldOption) (t : GoType) (x : Value) : Bool :=
  (env.methodOf (.ptr t)).isNone &&
  match x with
  | .bool _ =>
    match env.underlying t with
    | .bool => true
    | _ => false
  | .int i =>
    match env.underlying t with
    | .int8 => -2 ^ 7 ≤ i && i < 2 ^ 7
    | .int16 => -2 ^ 15 ≤ i && i < 2 ^ 15
    | .int32 => -2 ^ 31 ≤ i && i < 2 ^ 31
    | .int64 => -2 ^ 63 ≤ i && i < 2 ^ 63
    | _ => false
  | .uint n =>
    match env.underlying t with
    | .uint8 => n < 2 ^ 8
    | .uint16 => n < 2 ^ 16
    | .uint32 => n < 2 ^ 32
    | .uint64 => n < 2 ^ 64
    | _ => false
  | .float b =>
    match env.underlying t with
    | .float32 => b < 2 ^ 32
    | .float64 => b < 2 ^ 64
    | _ => false
  | .string bs =>
    match env.underlying t with
    | .string => bs.length < 2 ^ 63
    | _ => false
  | .array xs =>
    match env.underlying t with
    | .array n et => xs.length = n && encodableElems opt et xs
    | _ => false
  | .slice xs =>
    match env.underlying t with
    | .slice et =>
      xs.length < 2 ^ 63 && opt.sizeOfSlice.all (· = (xs.length : Int)) &&
        (xs.length = 1 || env.size et * xs.length ≤ maxAlloc) && encodableElems opt et xs
    | _ => false
  | .ptr (some y) =>
    match env.underlying t with
    | .ptr et => encodableBody opt et y
    | _ => false
  | .struct vs =>
    match env.underlying t with
    | .struct fs => encodableFields fs vs fun _ => none
    | _ => false
  | .ptr none | .iface _ | .other _ => false

/-- Modelled from the spec: `encodableBody` of each element, or an absent one. -/
def encodableElems (opt : FieldOption) (et : GoType) : List Value → Bool
  | [] => true
  | x :: xs => presenceOk env opt et x (encodableBody opt et x) && encodableElems opt et xs

/-- Modelled from the spec: a struct's values field by field, with no `binary_extension`
field. -/
def encodableFields : List (Field GoType) → List Value → (String → Option Int) → Bool
  | [], [], _ => true
  | f :: fs, v :: vs, links =>
    !f.tag.binaryExtension &&
      (f.tag.skip || !f.exported ||
        presenceOk env (fieldDirective f links) f.type v
            (encodableBody (fieldDirective f links) f.type v) &&
          (f.tag.sizeOf = "" || sizeFieldOk env f.type v)) &&
      encodableFields fs vs (nextLinks f v links)
  | _, _, _ => false
end

/-- Modelled from the spec: `x` is encodable under `opt`, presence byte included. -/
def encodable (opt : FieldOption) (t : GoType) (x : Value) : Bool :=
  presenceOk env opt t x (encodableBody env opt t x)

/-! The field loops case by case, so that proofs rewrite with these and never unfold
the mutual blocks. -/

theorem encodeFields_cons (f : Field GoType) (fs : List (Field GoType)) (v : Value)
    (vs : List Value) (links : String → Option Int) :
    encodeFields env (f :: fs) (v :: vs) links =
      (if f.tag.skip || !f.exported then []
        else withPresence (fieldDirective f links) v
          (encodeBody env (fieldDirective f links) f.type v)) ++
        encodeFields env fs vs (nextLinks f v links) := rfl

theorem encodeFields_nil (vs : List Value) (links : String → Option Int) :
    encodeFields env [] vs links = [] := by
  cases vs <;> rfl

theorem canonFields_cons (f : Field GoType) (fs : List (Field GoType)) (v : Value)
    (vs : List Value) :
    canonFields env (f :: fs) (v :: vs) =
      (if f.tag.skip || !f.exported then env.zero f.type else canon env f.type v) ::
        canonFields env fs vs := rfl

theorem canonFields_nil (vs : List Value) : canonFields env [] vs = [] := by
  cases vs <;> rfl

theorem encodableFields_cons (f : Field GoType) (fs : List (Field GoType)) (v : Value)
    (vs : List Value) (links : String → Option Int) :
    encodableFields env (f :: fs) (v :: vs) links =
      (!f.tag.binaryExtension &&
        (f.tag.skip || !f.exported ||
          presenceOk env (fieldDirective f links) f.type v
              (encodableBody env (fieldDirective f links) f.type v) &&
            (f.tag.sizeOf = "" || sizeFieldOk env f.type v)) &&
        encodableFields env fs vs (nextLinks f v links)) := rfl

theorem encodableFields_nil_cons (v : Value) (vs : List Value) (links : String → Option Int) :
    encodableFields env [] (v :: vs) links = false := rfl

theorem encodableFields_cons_nil (f : Field GoType) (fs : List (Field GoType))
    (links : String → Option Int) : encodableFields env (f :: fs) [] links = false := rfl

end

mutual
/-- The nesting depth of a value: how deep the recursion of the decoder goes into it. -/
def Value.depth : Value → Nat
  | .array xs | .slice xs | .struct xs => Value.depthList xs + 1
  | .ptr (some y) => y.depth + 1
  | _ => 0

/-- The largest depth of a list of values. -/
def Value.depthList : List Value → Nat
  | [] => 0
  | x :: xs => max x.depth (Value.depthList xs)
end

end BinDecoder
