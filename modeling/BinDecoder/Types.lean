import BinDecoder.Wire

/-!
# Go types and values as the decoder sees them

`decodeBin` (`src/unnamed/part_000`) is driven by `reflect`: by the kind of the
destination's type, by the fields and `bin` tags of a struct type, and by the method
sets of named types.  This file gives the part of Go's type system it looks at,
and a value model in which every value is a finite tree: a pointer owns its target
and an interface owns its dynamic value.  Named types are references into a type
environment (`BinDecoder.Env`), which is how recursive types such as
`type Node struct { Next *Node }` are written down.
-/

namespace BinDecoder

/-- `reflect.Kind`. -/
inductive Kind where
  | invalid | bool | int | int8 | int16 | int32 | int64
  | uint | uint8 | uint16 | uint32 | uint64 | uintptr
  | float32 | float64 | complex64 | complex128
  | array | chan | func | interface | map | ptr | slice | string | struct | unsafePointer
deriving DecidableEq, Repr

/-- The parsed `bin:"..."` tag of a struct field: the fields of `fieldTag` that
`decodeStruct` reads.  The tag grammar (`parseFieldTag`) is not part of the model. -/
structure FieldTag where
  sizeOf : String
  skip : Bool
  order : ByteOrder
  optional : Bool
  binaryExtension : Bool
deriving DecidableEq, Repr

/-- A struct field as `reflect.StructField` describes it; `exported` is `PkgPath == ""`. -/
structure Field (τ : Type) where
  name : String
  exported : Bool
  tag : FieldTag
  type : τ

/-- Go types.  The element types of maps, channels and functions are left out: the
decoder rejects those kinds before it looks inside.  `iface` is an interface type
literal; a named interface is `named` with an `iface` underlying type. -/
inductive GoType where
  | bool | int | int8 | int16 | int32 | int64
  | uint | uint8 | uint16 | uint32 | uint64 | uintptr
  | float32 | float64 | complex64 | complex128 | string | unsafePointer
  | chan | func | map | iface
  | array (len : Nat) (elem : GoType)
  | ptr (elem : GoType)
  | slice (elem : GoType)
  | struct (fields : List (Field GoType))
  | named (name : String)

/-- `t.Kind()` for a type that is not a name; a name has the kind of its underlying type. -/
def GoType.kind : GoType → Kind
  | .bool => .bool | .int => .int | .int8 => .int8 | .int16 => .int16 | .int32 => .int32
  | .int64 => .int64 | .uint => .uint | .uint8 => .uint8 | .uint16 => .uint16
  | .uint32 => .uint32 | .uint64 => .uint64 | .uintptr => .uintptr | .float32 => .float32
  | .float64 => .float64 | .complex64 => .complex64 | .complex128 => .complex128
  | .string => .string | .unsafePointer => .unsafePointer | .chan => .chan | .func => .func
  | .map => .map | .iface => .interface | .array _ _ => .array | .ptr _ => .ptr
  | .slice _ => .slice | .struct _ => .struct | .named _ => .invalid

/-- `t.Name() != ""`: predeclared and named types have a name, type literals do not. -/
def GoType.hasName : GoType → Bool
  | .chan | .func | .map | .iface | .array _ _ | .ptr _ | .slice _ | .struct _ => false
  | _ => true

/-- Values.  Signed and unsigned integers of every width are `int` and `uint`, floats
are their IEEE bit patterns, a string is its bytes, and `other` stands for a value of a
kind the decoder never reads (a map, channel, function, complex number, `uintptr` or
`unsafe.Pointer`), `0` being its zero value. -/
inductive Value where
  | bool (b : Bool)
  | int (i : Int)
  | uint (n : Nat)
  | float (bits : Nat)
  | string (bytes : List UInt8)
  | array (elems : List Value)
  | slice (elems : List Value)
  | ptr (target : Option Value)
  | struct (fields : List Value)
  | iface (dyn : Option (GoType × Value))
  | other (n : Nat)

/-- The elements of an array or slice value. -/
def Value.elems : Value → List Value
  | .array xs | .slice xs => xs
  | _ => []

/-- The fields of a struct value. -/
def Value.fields : Value → List Value
  | .struct fs => fs
  | _ => []

end BinDecoder
