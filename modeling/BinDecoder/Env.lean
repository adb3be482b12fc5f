import BinDecoder.Reads

/-!
# Named types: the type environment

A program's defined types `type N U`, with what `decodeBin` asks of them: the
underlying type `U` (its kind, its fields), whether `*N` has the custom decoder
method `UnmarshalBinary`, and the zero value `reflect.Zero` builds.

A custom decoder is user code.  It is given the live session and a pointer to its
receiver, so it is modelled as a method of the session that takes the receiver's
value and returns the receiver's new value (a value receiver returns it unchanged).

`TypeEnv` carries the facts Go's type checker guarantees: an underlying type is never
itself a name, pointer and interface types have no methods, and every type has a
finite zero value and a size.  The last two are stated as the fixpoint equations
`namedZero_eq` and `namedLayout_eq`, so that `TypeEnv.zero` and `TypeEnv.size` are
computed by structural recursion on the type.  Sizes are those of a 64-bit platform, the
one whose `maxAlloc` the decoder's allocations are checked against.
-/

namespace BinDecoder

/-- `BinaryUnmarshaler`: a type's own `UnmarshalBinary(decoder *Decoder) error`, called on
a pointer to the receiver. -/
structure Unmarshaler where
  unmarshalBinary : Value → DecM Value

/-- A defined type `type N U`: its underlying type, and the `UnmarshalBinary` method of
the method set of `*N`, if it has one. -/
structure TypeDecl where
  underlying : GoType
  unmarshaler : Option Unmarshaler

mutual
/-- The zero value of a type, given the zero values of the named types. -/
def zeroWith (nz : String → Value) : GoType → Value
  | .bool => .bool false
  | .int | .int8 | .int16 | .int32 | .int64 => .int 0
  | .uint | .uint8 | .uint16 | .uint32 | .uint64 | .uintptr => .uint 0
  | .float32 | .float64 => .float 0
  | .complex64 | .complex128 | .unsafePointer | .chan | .func | .map => .other 0
  | .string => .string []
  | .iface => .iface none
  | .array n t => .array (List.replicate n (zeroWith nz t))
  | .ptr _ => .ptr none
  | .slice _ => .slice []
  | .struct fs => .struct (zeroFields nz fs)
  | .named n => nz n

/-- The zero values of a struct's fields. -/
def zeroFields (nz : String → Value) : List (Field GoType) → List Value
  | [] => []
  | f :: fs => zeroWith nz f.type :: zeroFields nz fs
end

/-- `n` rounded up to a multiple of `a`. -/
def alignUp (n a : Nat) : Nat := n + (a - n % a) % a

mutual
/-- `unsafe.Sizeof` and `unsafe.Alignof` of a type on a 64-bit platform, as `cmd/compile`
lays it out, given those of the named types. -/
def layoutWith (nl : String → Nat × Nat) : GoType → Nat × Nat
  | .bool | .int8 | .uint8 => (1, 1)
  | .int16 | .uint16 => (2, 2)
  | .int32 | .uint32 | .float32 => (4, 4)
  | .int | .int64 | .uint | .uint64 | .uintptr | .float64 | .unsafePointer | .chan | .func
  | .map | .ptr _ => (8, 8)
  | .complex64 => (8, 4)
  | .complex128 | .string | .iface => (16, 8)
  | .slice _ => (24, 8)
  | .array n t => ((layoutWith nl t).1 * n, (layoutWith nl t).2)
  | .struct fs =>
    let r := fieldsLayout nl fs 0
    -- a struct that is not empty and ends in a zero-sized field gets one byte of padding
    (alignUp (if 0 < r.1 ∧ r.2.2 = true then r.1 + 1 else r.1) r.2.1, r.2.1)
  | .named n => nl n

/-- The fields of a struct laid out from offset `off`, each at its alignment: the end
offset, the largest alignment (at least `1`), and whether the last field is zero-sized. -/
def fieldsLayout (nl : String → Nat × Nat) : List (Field GoType) → Nat → Nat × Nat × Bool
  | [], off => (off, 1, false)
  | f :: fs, off =>
    let r := fieldsLayout nl fs (alignUp off (layoutWith nl f.type).2 + (layoutWith nl f.type).1)
    (r.1, max (layoutWith nl f.type).2 r.2.1,
      if fs.isEmpty then decide ((layoutWith nl f.type).1 = 0) else r.2.2)
end

/-- The defined types of a program, with the guarantees of Go's type checker. -/
structure TypeEnv where
  decl : String → TypeDecl
  /-- `reflect.Zero` of each defined type. -/
  namedZero : String → Value
  underlying_ne_named : ∀ n m, (decl n).underlying ≠ .named m
  namedZero_eq : ∀ n, namedZero n = zeroWith namedZero (decl n).underlying
  /-- `unsafe.Sizeof` and `unsafe.Alignof` of each defined type. -/
  namedLayout : String → Nat × Nat
  namedLayout_eq : ∀ n, namedLayout n = layoutWith namedLayout (decl n).underlying
  no_methods : ∀ n, (decl n).unmarshaler ≠ none →
    (decl n).underlying.kind ≠ .ptr ∧ (decl n).underlying.kind ≠ .interface

namespace TypeEnv

variable (env : TypeEnv)

/-- The underlying type: a name is looked up, a type literal is its own. -/
def underlying : GoType → GoType
  | .named n => (env.decl n).underlying
  | t => t

/-- `t.Kind()`. -/
def kind (t : GoType) : Kind := (env.underlying t).kind

/-- `reflect.Zero(t)`. -/
def zero (t : GoType) : Value := zeroWith env.namedZero t

/-- `t.Size()`: the bytes one value of `t` takes. -/
def size (t : GoType) : Nat := (layoutWith env.namedLayout t).1

/-- `t.Elem()` of a pointer, array or slice type. -/
def elem (t : GoType) : GoType :=
  match env.underlying t with
  | .ptr e | .array _ e | .slice e => e
  | _ => t

/-- `BinaryUnmarshaler` in the method set of `t`: only `*N` for a defined `N` has methods. -/
def methodOf : GoType → Option Unmarshaler
  | .ptr (.named n) => (env.decl n).unmarshaler
  | _ => none

@[simp] theorem underlying_named (n : String) :
    env.underlying (.named n) = (env.decl n).underlying := rfl

/-- A type literal is its own underlying type. -/
@[simp] theorem underlying_of_not_named {t : GoType} (h : ∀ n, t ≠ .named n) :
    env.underlying t = t := by
  cases t <;> first | rfl | exact absurd rfl (h _)

theorem underlying_underlying (t : GoType) : env.underlying (env.underlying t) = env.underlying t := by
  cases t with
  | named n =>
    cases h : (env.decl n).underlying with
    | named m => exact absurd h (env.underlying_ne_named n m)
    | _ => simp [underlying, h]
  | _ => rfl

theorem zero_named (n : String) : env.zero (.named n) = env.zero (env.decl n).underlying :=
  env.namedZero_eq n

theorem size_named (n : String) : env.size (.named n) = env.size (env.decl n).underlying :=
  congrArg Prod.fst (env.namedLayout_eq n)

/-- The zero value of a type is the zero value of its underlying type. -/
theorem zero_underlying (t : GoType) : env.zero (env.underlying t) = env.zero t := by
  cases t <;> first | rfl | exact (env.zero_named _).symm

theorem underlying_of_kind_ptr {t : GoType} (h : env.kind t = .ptr) :
    ∃ e, env.underlying t = .ptr e := by
  unfold TypeEnv.kind at h
  generalize env.underlying t = u at h ⊢
  cases u <;> first | exact ⟨_, rfl⟩ | cases h

/-- Only the pointer type of a defined type has methods. -/
theorem methodOf_ptr_some {t : GoType} {u : Unmarshaler} (h : env.methodOf (.ptr t) = some u) :
    ∃ N, t = .named N ∧ (env.decl N).unmarshaler = some u := by
  cases t <;> first | exact ⟨_, rfl, h⟩ | cases h

end TypeEnv

/-- A program with one defined type, `type Custom uint8`, where `*Custom` has an
`UnmarshalBinary` that reads one byte. -/
def customEnv : TypeEnv where
  decl n := if n = "Custom" then
      ⟨.uint8, some ⟨fun _ => (fun b => .uint b.toNat) <$> readByte⟩⟩
    else ⟨.bool, none⟩
  namedZero n := if n = "Custom" then .uint 0 else .bool false
  underlying_ne_named n m := by dsimp only; split <;> simp
  namedZero_eq n := by dsimp only; split <;> rfl
  namedLayout _ := (1, 1)
  namedLayout_eq n := by dsimp only; split <;> rfl
  no_methods n h := by dsimp only at h ⊢; split at h <;> simp_all [GoType.kind]

end BinDecoder
