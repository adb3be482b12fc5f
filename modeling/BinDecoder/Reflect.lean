import BinDecoder.Env

/-!
# `reflect.Value` cursors and `indirect`

One call of `decodeBin` works on one destination value.  Inside it, `indirect`
(`src/decoder.go`) moves a `reflect.Value` through pointers and interfaces, allocating
nil pointers on the way.  Here that `reflect.Value` is a cursor into the destination:

* `RValue.loc t p settable` is the value of type `t` reached from the destination by the
  path `p` of dereferences and interface unwrappings; only an interface's dynamic value
  is not settable (it is a copy), and the destination itself is not settable when it is
  the pointer handed to `Decode`;
* `RValue.addr t p` is `v.Addr()` of the value at `p`, a pointer of type `*t`;
* `RValue.invalid` is the zero `reflect.Value{}` that `indirect` returns beside a custom
  decoder.  Asking it for its type panics.

The values the decoder meets are addressable exactly when they are settable: none is
reached through an unexported field (`decodeStruct` skips those), so `v.CanAddr()` is
read as `v.CanSet()`.  `indirect`'s guard against an interface that holds its own
address (`v = &v`) is left out: in a tree no value holds its own address, so the guard
never fires.

`indirect` runs on `Fuel`, one unit per round of its loop; it needs more than the
length of the pointer chain it walks.
-/

namespace BinDecoder

/-! ## Paths into a value -/

/-- One step down a value: through a non-nil pointer, or into an interface's dynamic value. -/
inductive Step where
  | deref
  | dyn
deriving DecidableEq, Repr

/-- The value at the end of a path, if the path exists. -/
def Value.get : List Step → Value → Option Value
  | [], v => some v
  | .deref :: p, .ptr (some x) => x.get p
  | .dyn :: p, .iface (some (_, x)) => x.get p
  | _ :: _, _ => none

/-- Replace the value at the end of a path (nothing changes if the path does not exist). -/
def Value.set : List Step → Value → Value → Value
  | [], _, y => y
  | .deref :: p, .ptr (some x), y => .ptr (some (x.set p y))
  | .dyn :: p, .iface (some (t, x)), y => .iface (some (t, x.set p y))
  | _ :: _, v, _ => v

@[simp] theorem Value.get_nil (v : Value) : v.get [] = some v := rfl
@[simp] theorem Value.set_nil (v y : Value) : v.set [] y = y := rfl

@[simp] theorem Value.get_deref (x : Value) (p : List Step) :
    (Value.ptr (some x)).get (.deref :: p) = x.get p := rfl

@[simp] theorem Value.set_deref (x y : Value) (p : List Step) :
    (Value.ptr (some x)).set (.deref :: p) y = .ptr (some (x.set p y)) := rfl

@[simp] theorem Value.get_dyn (t : GoType) (x : Value) (p : List Step) :
    (Value.iface (some (t, x))).get (.dyn :: p) = x.get p := rfl

@[simp] theorem Value.set_dyn (t : GoType) (x y : Value) (p : List Step) :
    (Value.iface (some (t, x))).set (.dyn :: p) y = .iface (some (t, x.set p y)) := rfl

theorem Value.get_append : ∀ (p q : List Step) (r : Value),
    r.get (p ++ q) = (r.get p).bind (Value.get q)
  | [], _, _ => rfl
  | .deref :: p, q, .ptr (some x) => get_append p q x
  | .dyn :: p, q, .iface (some (_, x)) => get_append p q x
  | .deref :: _, _, .bool _ | .deref :: _, _, .int _ | .deref :: _, _, .uint _
  | .deref :: _, _, .float _ | .deref :: _, _, .string _ | .deref :: _, _, .array _
  | .deref :: _, _, .slice _ | .deref :: _, _, .ptr none | .deref :: _, _, .struct _
  | .deref :: _, _, .iface _ | .deref :: _, _, .other _
  | .dyn :: _, _, .bool _ | .dyn :: _, _, .int _ | .dyn :: _, _, .uint _
  | .dyn :: _, _, .float _ | .dyn :: _, _, .string _ | .dyn :: _, _, .array _
  | .dyn :: _, _, .slice _ | .dyn :: _, _, .ptr _ | .dyn :: _, _, .struct _
  | .dyn :: _, _, .iface none | .dyn :: _, _, .other _ => rfl

/-- Writing where a path ends, then reading there, gives what was written. -/
theorem Value.get_set_self : ∀ (p : List Step) (r y : Value), r.get p ≠ none →
    (r.set p y).get p = some y
  | [], _, _, _ => rfl
  | .deref :: p, .ptr (some x), y, h => get_set_self p x y h
  | .dyn :: p, .iface (some (_, x)), y, h => get_set_self p x y h
  | .deref :: _, .bool _, _, h | .deref :: _, .int _, _, h | .deref :: _, .uint _, _, h
  | .deref :: _, .float _, _, h | .deref :: _, .string _, _, h | .deref :: _, .array _, _, h
  | .deref :: _, .slice _, _, h | .deref :: _, .ptr none, _, h | .deref :: _, .struct _, _, h
  | .deref :: _, .iface _, _, h | .deref :: _, .other _, _, h
  | .dyn :: _, .bool _, _, h | .dyn :: _, .int _, _, h | .dyn :: _, .uint _, _, h
  | .dyn :: _, .float _, _, h | .dyn :: _, .string _, _, h | .dyn :: _, .array _, _, h
  | .dyn :: _, .slice _, _, h | .dyn :: _, .ptr _, _, h | .dyn :: _, .struct _, _, h
  | .dyn :: _, .iface none, _, h | .dyn :: _, .other _, _, h => absurd rfl h

/-- A write at the end of a longer path is a write, at the shorter one, of the value
written into. -/
theorem Value.set_append : ∀ (p q : List Step) (r z y : Value), r.get p = some z →
    r.set (p ++ q) y = r.set p (z.set q y)
  | [], _, _, _, _, h => by cases h; rfl
  | .deref :: p, q, .ptr (some x), z, y, h => by
    simp only [List.cons_append, set_deref, set_append p q x z y h]
  | .dyn :: p, q, .iface (some (_, x)), z, y, h => by
    simp only [List.cons_append, set_dyn, set_append p q x z y h]
  | .deref :: _, _, .bool _, _, _, h | .deref :: _, _, .int _, _, _, h
  | .deref :: _, _, .uint _, _, _, h | .deref :: _, _, .float _, _, _, h
  | .deref :: _, _, .string _, _, _, h | .deref :: _, _, .array _, _, _, h
  | .deref :: _, _, .slice _, _, _, h | .deref :: _, _, .ptr none, _, _, h
  | .deref :: _, _, .struct _, _, _, h | .deref :: _, _, .iface _, _, _, h
  | .deref :: _, _, .other _, _, _, h
  | .dyn :: _, _, .bool _, _, _, h | .dyn :: _, _, .int _, _, _, h
  | .dyn :: _, _, .uint _, _, _, h | .dyn :: _, _, .float _, _, _, h
  | .dyn :: _, _, .string _, _, _, h | .dyn :: _, _, .array _, _, _, h
  | .dyn :: _, _, .slice _, _, _, h | .dyn :: _, _, .ptr _, _, _, h
  | .dyn :: _, _, .struct _, _, _, h | .dyn :: _, _, .iface none, _, _, h
  | .dyn :: _, _, .other _, _, _, h => by cases h

/-! ## Cursors -/

/-- A `reflect.Value` of the destination of one `decodeBin` call. -/
inductive RValue where
  | invalid
  | loc (t : GoType) (p : List Step) (settable : Bool)
  | addr (t : GoType) (p : List Step)

namespace RValue

variable (env : TypeEnv) (r : Value)

/-- `v.Type()`; `none` where Go panics (the zero `reflect.Value`). -/
def type? : RValue → Option GoType
  | .invalid => none
  | .loc t _ _ => some t
  | .addr t _ => some (.ptr t)

/-- `v.Kind()`. -/
def kind : RValue → Kind
  | .invalid => .invalid
  | .loc t _ _ => env.kind t
  | .addr _ _ => .ptr

/-- `v.CanSet()`. -/
def canSet : RValue → Bool
  | .loc _ _ s => s
  | _ => false

/-- `v.IsNil()` of a pointer or an interface. -/
def isNil : RValue → Bool
  | .loc _ p _ =>
    match r.get p with
    | some (.ptr none) | some (.iface none) => true
    | _ => false
  | _ => false

/-- `v.Elem()` of a pointer or an interface: the zero `reflect.Value` when `v` is nil. -/
def elem : RValue → RValue
  | .loc t p _ =>
    match env.underlying t, r.get p with
    | .ptr et, some (.ptr (some _)) => .loc et (p ++ [.deref]) true
    | .iface, some (.iface (some (dt, _))) => .loc dt (p ++ [.dyn]) false
    | _, _ => .invalid
  | .addr t p => .loc t p true
  | .invalid => .invalid

/-- Where a pointer cursor points: the path of its target. -/
def target : RValue → List Step
  | .loc _ p _ => p ++ [.deref]
  | .addr _ p => p
  | .invalid => []

/-- `v.Set(reflect.New(v.Type().Elem()))` when `v` is a nil pointer: a fresh zero target. -/
def allocate (v : RValue) : Except Panic Value :=
  if isNil r v then
    match v with
    | .loc t p true => .ok (r.set p (.ptr (some (env.zero (env.elem t)))))
    | _ => .error .reflectUnaddressable
  else .ok r

/-- The first test of `indirect`'s loop: the dynamic value of a non-nil interface, if it
is a non-nil pointer worth following. -/
def enterInterface (decodingNull : Bool) (v : RValue) : Option RValue :=
  if kind env v = .interface ∧ isNil r v = false then
    let e := elem env r v
    if kind env e = .ptr ∧ isNil r e = false ∧
        (decodingNull = false ∨ kind env (elem env r e) = .ptr) then some e
    else none
  else none

end RValue

/-! ## `indirect` -/

/-- What `indirect` returns: the custom decoder it found, with the path of its receiver,
the value it stopped at, and the destination after the allocations it made. -/
structure Indirection where
  unmarshaler : Option (Unmarshaler × List Step)
  value : RValue
  root : Value

/-- The `for` loop of `indirect`, from the cursor `v` and the flag `haveAddr`; `none` is
running out of fuel. -/
def indirectLoop (env : TypeEnv) (decodingNull : Bool) (v0 : RValue) :
    Nat → RValue → Bool → Value → Option (Except Panic Indirection)
  | 0, _, _, _ => none
  | n + 1, v, haveAddr, r =>
    match v.enterInterface env r decodingNull with
    | some e => indirectLoop env decodingNull v0 n e false r
    | none =>
      if v.kind env ≠ .ptr then some (.ok ⟨none, v, r⟩)
      else if (v.elem env r).kind env ≠ .ptr ∧ decodingNull = true ∧ v.canSet = true then
        some (.ok ⟨none, v, r⟩)
      else
        match v.allocate env r with
        | .error p => some (.error p)
        | .ok r =>
          match v.type?.bind env.methodOf with
          | some u => some (.ok ⟨some (u, v.target), .invalid, r⟩)
          | none =>
            if haveAddr then indirectLoop env decodingNull v0 n v0 false r
            else indirectLoop env decodingNull v0 n (v.elem env r) false r

/-- `indirect(v, decodingNull)`: a named, addressable non-pointer value starts from its
address, so that the methods of `*N` are found. -/
def indirect (env : TypeEnv) (fuel : Nat) (v : RValue) (decodingNull : Bool) (r : Value) :
    Option (Except Panic Indirection) :=
  match v with
  | .invalid => some (.error .reflectZeroValue)
  | .loc t p s =>
    if env.kind t ≠ .ptr ∧ t.hasName = true ∧ s = true then
      indirectLoop env decodingNull v fuel (.addr t p) true r
    else indirectLoop env decodingNull v fuel v false r
  | .addr _ _ => indirectLoop env decodingNull v fuel v false r

@[simp] theorem indirectLoop_zero (env : TypeEnv) (dn : Bool) (v0 v : RValue) (h : Bool)
    (r : Value) : indirectLoop env dn v0 0 v h r = none := rfl

end BinDecoder
