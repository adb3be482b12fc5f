import BinDecoder.Decoder

/-!
# `indirect` over a heap

The model of `BinDecoder.Reflect` keeps every value a finite tree, where no value can hold
its own address.  `indirect` (`src/decoder.go`) is written for Go's memory, where it can:
its loop has a guard for an interface that holds a pointer to itself (`var v
interface{}; v = &v`).  This file runs the same loop over a heap of numbered cells.

* A type is the number of its runtime descriptor (`TypeTable`): two types are identical
  exactly when their numbers are, as `*rtype` pointers are in `reflect`.  `v.Addr()` has
  the type `reflect.PtrTo(t)`, which the table gives for every type.
* A pointer holds the address of its target cell; an interface holds its dynamic type
  and value, which is never itself an interface (`Dyn`).
* A `reflect.Value` (`Ref`) is a variable in the heap, addressable and settable, or a
  value held nowhere in memory (what `v.Addr()` and an interface's `Elem()` return).
  `==` on `reflect.Value` compares type, contents and addressability, which is equality
  of `Ref`.

`indirect_self_pointer` is the run the guard does not cover: `p = &p` for `type P *P`
goes round the loop forever.  `indirect_self_interface` is the run it does cover, and
`indirect_halts` says that `indirect` returns over every finite chain (`Chain`), with
one of the outcomes `indirectLoop_returns` lists; `indirect_halts_guarded` extends it to
the chains that end at the guard (`GuardedChain`).
-/

namespace BinDecoder

namespace Heap

/-- What `indirect` asks of the runtime type descriptors, indexed by number: the kind,
`t.Elem()`, whether the type has a name, whether its method set has `UnmarshalBinary`,
and `reflect.PtrTo(t)`, which is a pointer type with element `t`. -/
structure TypeTable where
  kind : Nat → Kind
  elem : Nat → Nat
  named : Nat → Bool
  unmarshaler : Nat → Bool
  ptrTo : Nat → Nat
  kind_ptrTo : ∀ t, kind (ptrTo t) = .ptr
  elem_ptrTo : ∀ t, elem (ptrTo t) = t

/-- The dynamic value of an interface: a pointer, or a value of a kind `indirect` does
not look into. -/
inductive Dyn where
  | ptr (target : Option Nat)
  | other
deriving DecidableEq, Repr

/-- The contents of a heap cell: a pointer is the address of its target. -/
inductive Cell where
  | ptr (target : Option Nat)
  | iface (dyn : Option (Nat × Dyn))
  | other
deriving DecidableEq, Repr

/-- A dynamic value as the contents of a cell. -/
def Dyn.toCell : Dyn → Cell
  | .ptr a => .ptr a
  | .other => .other

/-- A `reflect.Value`: the variable of type `t` at address `a`, which is addressable and
settable, or a value of type `t` held nowhere in memory. -/
inductive Ref where
  | invalid
  | var (t : Nat) (a : Nat)
  | val (t : Nat) (x : Cell)
deriving DecidableEq, Repr

variable (T : TypeTable)

/-- `reflect.Zero(t)`, as far as `indirect` looks at it. -/
def zero (t : Nat) : Cell :=
  match T.kind t with
  | .ptr => .ptr none
  | .interface => .iface none
  | _ => .other

namespace Ref

variable (h : List Cell)

/-- `v.Type()`; `none` where Go panics. -/
def type? : Ref → Option Nat
  | .invalid => none
  | .var t _ | .val t _ => some t

/-- `v.Kind()`. -/
def kind : Ref → Kind
  | .invalid => .invalid
  | .var t _ | .val t _ => T.kind t

/-- What `v` holds. -/
def read : Ref → Option Cell
  | .invalid => none
  | .var _ a => h[a]?
  | .val _ x => some x

/-- `v.CanSet()`, and `v.CanAddr()`: only variables are. -/
def canSet : Ref → Bool
  | .var _ _ => true
  | _ => false

/-- `v.IsNil()` of a pointer or an interface. -/
def isNil (v : Ref) : Bool :=
  match v.read h with
  | some (.ptr none) | some (.iface none) => true
  | _ => false

/-- `v.Elem()`: the target variable of a non-nil pointer, the dynamic value of a
non-nil interface, and the zero `reflect.Value` otherwise. -/
def elem (v : Ref) : Ref :=
  match v.kind T, v.type?, v.read h with
  | .ptr, some t, some (.ptr (some a)) => .var (T.elem t) a
  | .interface, _, some (.iface (some (dt, x))) => .val dt x.toCell
  | _, _, _ => .invalid

/-- `v.Addr()` of a variable. -/
def addr : Ref → Ref
  | .var t a => .val (T.ptrTo t) (.ptr (some a))
  | _ => .invalid

/-- `v.Set(reflect.New(v.Type().Elem()))` when `v` is nil: a fresh cell at the end of
the heap, holding the zero value; only a variable can be set. -/
def allocate (v : Ref) : Except Panic (List Cell) :=
  if v.isNil h then
    match v with
    | .var t a => .ok (h.set a (.ptr (some h.length)) ++ [zero T (T.elem t)])
    | _ => .error .reflectUnaddressable
  else .ok h

/-- The first test of `indirect`'s loop: the dynamic value of a non-nil interface, if it
is a non-nil pointer worth following. -/
def enterInterface (decodingNull : Bool) (v : Ref) : Option Ref :=
  if v.kind T = .interface ∧ v.isNil h = false then
    let e := v.elem T h
    if e.kind T = .ptr ∧ e.isNil h = false ∧
        (decodingNull = false ∨ (e.elem T h).kind T = .ptr) then some e
    else none
  else none

end Ref

/-- What `indirect` returns: the receiver of the custom decoder it found, the value it
stopped at, and the heap after the allocations it made. -/
structure Indirection where
  unmarshaler : Option Ref
  value : Ref
  heap : List Cell
deriving Repr

/-- The `for` loop of `indirect`, from the value `v` and the flag `haveAddr`; `none` is
running out of fuel. -/
def indirectLoop (decodingNull : Bool) (v0 : Ref) :
    Nat → Ref → Bool → List Cell → Option (Except Panic Indirection)
  | 0, _, _, _ => none
  | n + 1, v, haveAddr, h =>
    match v.enterInterface T h decodingNull with
    | some e => indirectLoop decodingNull v0 n e false h
    | none =>
      if v.kind T ≠ .ptr then some (.ok ⟨none, v, h⟩)
      else if (v.elem T h).kind T ≠ .ptr ∧ decodingNull = true ∧ v.canSet = true then
        some (.ok ⟨none, v, h⟩)
      else if (v.elem T h).kind T = .interface ∧ (v.elem T h).elem T h = v then
        some (.ok ⟨none, v.elem T h, h⟩)
      else
        match v.allocate T h with
        | .error p => some (.error p)
        | .ok h =>
          if (v.type?.map T.unmarshaler).getD false then some (.ok ⟨some v, .invalid, h⟩)
          else if haveAddr then indirectLoop decodingNull v0 n v0 false h
          else indirectLoop decodingNull v0 n (v.elem T h) false h

/-- `indirect(v, decodingNull)`: a named, addressable value that is not a pointer starts
from its address, so that the methods of its pointer type are found. -/
def indirect (fuel : Nat) (v : Ref) (decodingNull : Bool) (h : List Cell) :
    Option (Except Panic Indirection) :=
  match v with
  | .invalid => some (.error .reflectZeroValue)
  | .var t _ | .val t _ =>
    if T.kind t ≠ .ptr ∧ T.named t = true ∧ v.canSet = true then
      indirectLoop T decodingNull v fuel (v.addr T) true h
    else indirectLoop T decodingNull v fuel v false h

namespace Ref

variable {T} {h : List Cell}

@[simp] theorem kind_var (t a : Nat) : (var t a).kind T = T.kind t := rfl
@[simp] theorem kind_val (t : Nat) (x : Cell) : (val t x).kind T = T.kind t := rfl
@[simp] theorem kind_invalid : invalid.kind T = .invalid := rfl
@[simp] theorem read_var (t a : Nat) : (var t a).read h = h[a]? := rfl
@[simp] theorem read_val (t : Nat) (x : Cell) : (val t x).read h = some x := rfl
@[simp] theorem type?_var (t a : Nat) : (var t a).type? = some t := rfl
@[simp] theorem type?_val (t : Nat) (x : Cell) : (val t x).type? = some t := rfl
@[simp] theorem canSet_var (t a : Nat) : (var t a).canSet = true := rfl
@[simp] theorem canSet_val (t : Nat) (x : Cell) : (val t x).canSet = false := rfl

/-- `v.Elem()` of a non-nil pointer: the variable it points to. -/
theorem elem_of_ptr (v : Ref) {t b : Nat} (hk : v.kind T = .ptr) (ht : v.type? = some t)
    (hr : v.read h = some (.ptr (some b))) : v.elem T h = var (T.elem t) b := by
  simp [elem, hk, ht, hr]

/-- `v.Elem()` of a non-nil interface: a copy of its dynamic value. -/
theorem elem_of_iface (v : Ref) {dt : Nat} {x : Dyn} (hk : v.kind T = .interface)
    (hr : v.read h = some (.iface (some (dt, x)))) : v.elem T h = val dt x.toCell := by
  simp [elem, hk, hr]

/-- `v.Elem()` of a nil pointer: the zero `reflect.Value`. -/
theorem elem_of_nil (v : Ref) (hr : v.read h = some (.ptr none)) : v.elem T h = invalid := by
  simp only [elem, hr]
  split <;> simp_all

theorem enterInterface_of_kind {v : Ref} (dn : Bool) (hk : v.kind T ≠ .interface) :
    v.enterInterface T h dn = none := by
  simp [enterInterface, hk]

end Ref

/-! ## One round of the loop -/

section Round

variable {T} {dn : Bool} {v0 v : Ref} {n : Nat} {haveAddr : Bool} {h : List Cell}

/-- Into the dynamic value of an interface. -/
theorem indirectLoop_enter {e : Ref} (he : v.enterInterface T h dn = some e) :
    indirectLoop T dn v0 (n + 1) v haveAddr h = indirectLoop T dn v0 n e false h := by
  simp [indirectLoop, he]

/-- At a value that is neither a pointer nor an interface worth entering. -/
theorem indirectLoop_stop (he : v.enterInterface T h dn = none) (hk : v.kind T ≠ .ptr) :
    indirectLoop T dn v0 (n + 1) v haveAddr h = some (.ok ⟨none, v, h⟩) := by
  simp [indirectLoop, he, hk]

/-- Under `decodingNull`, at a settable pointer to a value that is not a pointer. -/
theorem indirectLoop_break (hk : v.kind T = .ptr)
    (hb : (v.elem T h).kind T ≠ .ptr ∧ dn = true ∧ v.canSet = true) :
    indirectLoop T dn v0 (n + 1) v haveAddr h = some (.ok ⟨none, v, h⟩) := by
  rw [indirectLoop, Ref.enterInterface_of_kind dn (by rw [hk]; decide)]
  dsimp only
  rw [if_neg (by rw [hk]; exact not_not_intro rfl), if_pos hb]

/-- The guard: a pointer to an interface that holds that very pointer. -/
theorem indirectLoop_guard (hk : v.kind T = .ptr)
    (hnb : ¬((v.elem T h).kind T ≠ .ptr ∧ dn = true ∧ v.canSet = true))
    (hg : (v.elem T h).kind T = .interface ∧ (v.elem T h).elem T h = v) :
    indirectLoop T dn v0 (n + 1) v haveAddr h = some (.ok ⟨none, v.elem T h, h⟩) := by
  rw [indirectLoop, Ref.enterInterface_of_kind dn (by rw [hk]; decide)]
  dsimp only
  rw [if_neg (by rw [hk]; exact not_not_intro rfl), if_neg hnb, if_pos hg]

/-- `v.Set` of a nil pointer that cannot be set. -/
theorem indirectLoop_panic {p : Panic} (hk : v.kind T = .ptr)
    (hnb : ¬((v.elem T h).kind T ≠ .ptr ∧ dn = true ∧ v.canSet = true))
    (hng : ¬((v.elem T h).kind T = .interface ∧ (v.elem T h).elem T h = v))
    (hal : v.allocate T h = .error p) :
    indirectLoop T dn v0 (n + 1) v haveAddr h = some (.error p) := by
  rw [indirectLoop, Ref.enterInterface_of_kind dn (by rw [hk]; decide)]
  dsimp only
  rw [if_neg (by rw [hk]; exact not_not_intro rfl), if_neg hnb, if_neg hng, hal]

/-- A pointer whose type has a custom decoder. -/
theorem indirectLoop_found {h' : List Cell} (hk : v.kind T = .ptr)
    (hnb : ¬((v.elem T h).kind T ≠ .ptr ∧ dn = true ∧ v.canSet = true))
    (hng : ¬((v.elem T h).kind T = .interface ∧ (v.elem T h).elem T h = v))
    (hal : v.allocate T h = .ok h') (hu : (v.type?.map T.unmarshaler).getD false = true) :
    indirectLoop T dn v0 (n + 1) v haveAddr h = some (.ok ⟨some v, .invalid, h'⟩) := by
  rw [indirectLoop, Ref.enterInterface_of_kind dn (by rw [hk]; decide)]
  dsimp only
  rw [if_neg (by rw [hk]; exact not_not_intro rfl), if_neg hnb, if_neg hng, hal]
  simp only [hu, if_true]

/-- Down a pointer with no custom decoder, allocating its target when it is nil. -/
theorem indirectLoop_down {h' : List Cell} (hk : v.kind T = .ptr)
    (hnb : ¬((v.elem T h).kind T ≠ .ptr ∧ dn = true ∧ v.canSet = true))
    (hng : ¬((v.elem T h).kind T = .interface ∧ (v.elem T h).elem T h = v))
    (hal : v.allocate T h = .ok h') (hu : (v.type?.map T.unmarshaler).getD false = false) :
    indirectLoop T dn v0 (n + 1) v haveAddr h =
      indirectLoop T dn v0 n (if haveAddr then v0 else v.elem T h') false h' := by
  rw [indirectLoop, Ref.enterInterface_of_kind dn (by rw [hk]; decide)]
  dsimp only
  rw [if_neg (by rw [hk]; exact not_not_intro rfl), if_neg hnb, if_neg hng, hal]
  simp only [hu, Bool.false_eq_true, if_false]
  cases haveAddr <;> rfl

/-- A round at a pointer: the loop returns, whatever the fuel, or it allocates and goes on
to the pointer's target, or back to `v0` after the round through an address. -/
theorem indirectLoop_ptr_round (dn : Bool) (v0 : Ref) (haveAddr : Bool) (hk : v.kind T = .ptr) :
    (∃ r, ∀ n, indirectLoop T dn v0 (n + 1) v haveAddr h = some r) ∨
      ∃ h', v.allocate T h = .ok h' ∧ ∀ n, indirectLoop T dn v0 (n + 1) v haveAddr h =
        indirectLoop T dn v0 n (if haveAddr then v0 else v.elem T h') false h' := by
  by_cases hb : (v.elem T h).kind T ≠ .ptr ∧ dn = true ∧ v.canSet = true
  · exact .inl ⟨_, fun _ => indirectLoop_break hk hb⟩
  by_cases hg : (v.elem T h).kind T = .interface ∧ (v.elem T h).elem T h = v
  · exact .inl ⟨_, fun _ => indirectLoop_guard hk hb hg⟩
  cases hal : v.allocate T h with
  | error p => exact .inl ⟨_, fun _ => indirectLoop_panic hk hb hg hal⟩
  | ok h' =>
    cases hu : (v.type?.map T.unmarshaler).getD false
    · exact .inr ⟨h', rfl, fun _ => indirectLoop_down hk hb hg hal hu⟩
    · exact .inl ⟨_, fun _ => indirectLoop_found hk hb hg hal hu⟩

end Round

/-- A program's types: `0` is `type P *P`, `2` is `interface{}`, every odd number `2t + 1`
is the pointer type `*t`, and every other even number is `bool`.  No type has a custom
decoder. -/
def exampleTable : TypeTable where
  kind n := if n % 2 = 1 ∨ n = 0 then .ptr else if n = 2 then .interface else .bool
  elem n := if n % 2 = 1 then n / 2 else 0
  named n := n % 2 = 0 ∧ n ≠ 2
  unmarshaler _ := false
  ptrTo t := 2 * t + 1
  kind_ptrTo t := if_pos (.inl (by show (2 * t + 1) % 2 = 1; omega))
  elem_ptrTo t := by
    show (if (2 * t + 1) % 2 = 1 then (2 * t + 1) / 2 else 0) = t
    rw [if_pos (by omega)]; omega

@[simp] theorem indirectLoop_zero (dn : Bool) (v0 v : Ref) (haveAddr : Bool) (h : List Cell) :
    indirectLoop T dn v0 0 v haveAddr h = none := rfl

/-! ## A pointer that points to itself -/

section SelfPointer

variable {T} {P a : Nat} (hk : T.kind P = .ptr) (he : T.elem P = P) {h : List Cell}
  (ha : h[a]? = some (.ptr (some a)))
include hk he ha

theorem elem_self_pointer : (Ref.var P a).elem T h = .var P a := by
  simp [Ref.elem, Ref.kind, Ref.type?, Ref.read, hk, ha, he]

/-- From the variable `p` with `p = &p`, each round of the loop comes back to `p`. -/
theorem indirectLoop_self_pointer (hu : T.unmarshaler P = false) (dn : Bool) (v0 : Ref) :
    ∀ n, indirectLoop T dn v0 n (.var P a) false h = none
  | 0 => rfl
  | n + 1 => by
    have hnil : (Ref.var P a).isNil h = false := by simp [Ref.isNil, Ref.read, ha]
    simp only [indirectLoop, Ref.enterInterface, Ref.kind, hk, elem_self_pointer hk he ha,
      Ref.allocate, hnil, Ref.type?, Option.map_some', Option.getD_some, hu]
    simpa [elem_self_pointer hk he ha] using indirectLoop_self_pointer hu dn v0 n

/-- `p = &p` for `type P *P`: `indirect`'s guard covers only an interface holding its own
address, and from `p`, or from `&p` as `Decode(&p)` passes it, `indirect` runs out of
every fuel: it never returns. -/
theorem indirect_self_pointer (hu : T.unmarshaler P = false)
    (hu' : T.unmarshaler (T.ptrTo P) = false) (dn : Bool) (n : Nat) :
    indirect T n (.var P a) dn h = none ∧
      indirect T n (.val (T.ptrTo P) (.ptr (some a))) dn h = none := by
  refine ⟨by simpa [indirect, hk] using indirectLoop_self_pointer hk he ha hu dn _ n, ?_⟩
  have hel : (Ref.val (T.ptrTo P) (.ptr (some a))).elem T h = .var P a := by
    simp [Ref.elem, Ref.kind, Ref.type?, Ref.read, T.kind_ptrTo, T.elem_ptrTo]
  cases n with
  | zero => simp [indirect, T.kind_ptrTo]
  | succ n =>
    simp only [indirect, T.kind_ptrTo, ne_eq, not_true_eq_false, false_and, if_false,
      indirectLoop, Ref.enterInterface, Ref.kind, hel, hk, Ref.allocate, Ref.isNil, Ref.read,
      Ref.type?, Option.map_some', Option.getD_some, hu']
    simpa [hel] using indirectLoop_self_pointer hk he ha hu dn _ n

end SelfPointer

/-- `p = &p` for `type P *P` in the heap `[&p]`. -/
theorem indirect_self_pointer_example :
    (exampleTable.kind 0 = .ptr ∧ exampleTable.elem 0 = 0 ∧
      [Cell.ptr (some 0)][0]? = some (.ptr (some 0)) ∧ exampleTable.unmarshaler 0 = false ∧
      exampleTable.unmarshaler (exampleTable.ptrTo 0) = false) ∧
    indirect exampleTable 100 (.var 0 0) false [.ptr (some 0)] = none ∧
      indirect exampleTable 100 (.val (exampleTable.ptrTo 0) (.ptr (some 0))) false
        [.ptr (some 0)] = none :=
  ⟨⟨rfl, rfl, rfl, rfl, rfl⟩, indirect_self_pointer rfl rfl rfl rfl rfl false 100⟩

/-! ## An interface that holds its own address -/

section SelfInterface

variable {T} {I PI a : Nat} (hI : T.kind I = .interface) (hPI : T.kind PI = .ptr)
  (he : T.elem PI = I) {h : List Cell} (ha : h[a]? = some (.iface (some (PI, .ptr (some a)))))
include hI hPI he ha

omit hPI he in
theorem elem_self_interface : (Ref.var I a).elem T h = .val PI (.ptr (some a)) :=
  Ref.elem_of_iface (.var I a) hI ha

omit hI ha in
theorem elem_self_interface_val : (Ref.val PI (.ptr (some a))).elem T h = .var I a := by
  rw [Ref.elem_of_ptr (.val PI (.ptr (some a))) hPI rfl rfl, he]

/-- `decodingNull` does not enter an interface whose pointer points to a non-pointer. -/
theorem enterInterface_self_interface (dn : Bool) :
    (Ref.var I a).enterInterface T h dn = if dn then none else some (.val PI (.ptr (some a))) := by
  have hnil : (Ref.var I a).isNil h = false := by simp [Ref.isNil, Ref.read, ha]
  have hnil' : (Ref.val PI (.ptr (some a))).isNil h = false := rfl
  cases dn <;> simp [Ref.enterInterface, hI, hnil, hnil', elem_self_interface hI ha,
    elem_self_interface_val hPI he, hPI]

/-- From the variable `v` with `v = &v`, the loop stops at `v`: at once under
`decodingNull`, and otherwise one round later, at the guard. -/
theorem indirectLoop_self_interface (dn : Bool) (v0 : Ref) (n : Nat) :
    indirectLoop T dn v0 (n + 2) (.var I a) false h = some (.ok ⟨none, .var I a, h⟩) := by
  have hent := enterInterface_self_interface hI hPI he ha dn
  cases dn with
  | true => exact indirectLoop_stop hent (by simp [hI])
  | false =>
    have hv := elem_self_interface_val (h := h) (a := a) hPI he
    rw [indirectLoop_enter hent, indirectLoop_guard (v := .val PI (.ptr (some a))) hPI (by simp)
      (by simp [hv, hI, elem_self_interface hI ha]), hv]

/-- `var v I; v = &v` (the cell `a` holds the interface, whose dynamic value is a pointer
to `a`): `indirect` stops at `v` within three rounds, after the round through `&v` when
`I` has a name. -/
theorem indirect_self_interface (hu : T.unmarshaler (T.ptrTo I) = false) (dn : Bool) (n : Nat) :
    indirect T (n + 3) (.var I a) dn h = some (.ok ⟨none, .var I a, h⟩) := by
  have hI' : T.kind I ≠ .ptr := by rw [hI]; decide
  cases hn : T.named I
  · simpa [indirect, hI', hn] using indirectLoop_self_interface hI hPI he ha dn _ (n + 1)
  · have hv : (Ref.val (T.ptrTo I) (.ptr (some a))).elem T h = .var I a := by
      rw [Ref.elem_of_ptr (.val (T.ptrTo I) (.ptr (some a))) (T.kind_ptrTo I) rfl rfl, T.elem_ptrTo]
    simp only [indirect, hI', hn, Ref.canSet_var, ne_eq, not_false_eq_true, and_self, if_true,
      Ref.addr]
    have hnb : ¬(((Ref.val (T.ptrTo I) (.ptr (some a))).elem T h).kind T ≠ .ptr ∧ dn = true ∧
        (Ref.val (T.ptrTo I) (.ptr (some a))).canSet = true) := fun hc => absurd hc.2.2 (by simp)
    by_cases hp : PI = T.ptrTo I
    · rw [indirectLoop_guard (v := .val (T.ptrTo I) (.ptr (some a))) (T.kind_ptrTo I) hnb
        (by rw [hv, elem_self_interface hI ha, hp]; simp [hI]), hv]
    · rw [indirectLoop_down (v := .val (T.ptrTo I) (.ptr (some a))) (T.kind_ptrTo I) hnb
        (by rw [hv, elem_self_interface hI ha]; simp [hp])
        (show _ = .ok h by simp [Ref.allocate, Ref.isNil, Ref.read]) (by simp [hu]), if_pos rfl,
        indirectLoop_self_interface hI hPI he ha dn _ n]

end SelfInterface

/-! ## Finite chains -/

/-- `t`, `t.Elem()`, `t.Elem().Elem()`, … reach a type that is not a pointer, so that the
nil pointers `indirect` allocates on its way end.  `type P *P` has no such chain. -/
inductive ElemsEnd : Nat → Prop
  | stop {t : Nat} : T.kind t ≠ .ptr → ElemsEnd t
  | ptr {t : Nat} : T.kind t = .ptr → ElemsEnd (T.elem t) → ElemsEnd t

/-- The chain `indirect` follows from `v` in the heap `h` is finite, and so acyclic: a
derivation goes from a non-nil pointer to its target and from an interface to its
dynamic value, and ends at a value that is neither a pointer nor an interface, or at a
nil pointer whose allocations end. -/
inductive Chain (h : List Cell) : Ref → Prop
  | stop {v : Ref} : v.kind T ≠ .ptr → v.kind T ≠ .interface → Chain h v
  | iface {v : Ref} : v.kind T = .interface → Chain h (v.elem T h) → Chain h v
  | nilPtr {v : Ref} {t : Nat} : v.kind T = .ptr → v.type? = some t → v.isNil h = true →
      ElemsEnd T (T.elem t) → Chain h v
  | ptr {v : Ref} : v.kind T = .ptr → v.isNil h = false → Chain h (v.elem T h) → Chain h v

/-- A chain that `indirect` follows from `v` through non-nil pointers and interfaces, and
that ends in a finite `Chain` or at the loop's guard: a pointer whose target is an
interface holding that very pointer, as in `var v interface{}; v = &v`. -/
inductive GuardedChain (h : List Cell) : Ref → Prop
  | chain {v : Ref} : Chain T h v → GuardedChain h v
  | iface {v : Ref} : v.kind T = .interface → GuardedChain h (v.elem T h) → GuardedChain h v
  | ptr {v : Ref} : v.kind T = .ptr → v.isNil h = false → GuardedChain h (v.elem T h) →
      GuardedChain h v
  | guard {v : Ref} : v.kind T = .ptr → (v.elem T h).kind T = .interface →
      (v.elem T h).elem T h = v → GuardedChain h v

/-- What the loop can return: the panic of `v.Set` on a nil pointer that cannot be set,
the receiver of a custom decoder beside the zero `reflect.Value`, a value that is not a
pointer, or, under `decodingNull`, a settable pointer to a value that is not a pointer. -/
def Returns (decodingNull : Bool) : Except Panic Indirection → Prop
  | .error p => p = .reflectUnaddressable
  | .ok ⟨some u, v, _⟩ => v = .invalid ∧ (u.type?.map T.unmarshaler).getD false = true
  | .ok ⟨none, v, h⟩ =>
    v.kind T ≠ .ptr ∨ (v.elem T h).kind T ≠ .ptr ∧ decodingNull = true ∧ v.canSet = true

section Chains

variable {T} {dn : Bool} {v0 : Ref}

theorem Ref.enterInterface_eq_some {h : List Cell} {v e : Ref}
    (he : v.enterInterface T h dn = some e) : e = v.elem T h := by
  unfold Ref.enterInterface at he
  dsimp only at he
  split_ifs at he
  exact (Option.some.inj he).symm

theorem Ref.allocate_error {h : List Cell} {v : Ref} {p : Panic}
    (hal : v.allocate T h = .error p) : p = .reflectUnaddressable := by
  unfold Ref.allocate at hal
  split_ifs at hal
  split at hal <;> cases hal; rfl

/-- Every run of the loop that returns returns one of the outcomes of `Returns`. -/
theorem indirectLoop_returns :
    ∀ (n : Nat) (v : Ref) (haveAddr : Bool) (h : List Cell) (r : Except Panic Indirection),
      indirectLoop T dn v0 n v haveAddr h = some r → Returns T dn r
  | 0, _, _, _, _, hr => by cases hr
  | n + 1, v, haveAddr, h, r, hr => by
    cases he : v.enterInterface T h dn with
    | some e => exact indirectLoop_returns n _ _ _ r (by rwa [indirectLoop_enter he] at hr)
    | none =>
      by_cases hk : v.kind T = .ptr
      swap
      · rw [indirectLoop_stop he hk] at hr; cases hr; exact .inl hk
      by_cases hb : (v.elem T h).kind T ≠ .ptr ∧ dn = true ∧ v.canSet = true
      · rw [indirectLoop_break hk hb] at hr; cases hr; exact .inr hb
      by_cases hg : (v.elem T h).kind T = .interface ∧ (v.elem T h).elem T h = v
      · rw [indirectLoop_guard hk hb hg] at hr; cases hr; exact .inl (by rw [hg.1]; decide)
      cases hal : v.allocate T h with
      | error p =>
        rw [indirectLoop_panic hk hb hg hal] at hr; cases hr; exact Ref.allocate_error hal
      | ok h' =>
        cases hu : (v.type?.map T.unmarshaler).getD false
        · rw [indirectLoop_down hk hb hg hal hu] at hr
          exact indirectLoop_returns n _ _ _ r hr
        · rw [indirectLoop_found hk hb hg hal hu] at hr; cases hr; exact ⟨rfl, hu⟩

theorem Ref.allocate_of_not_nil {h : List Cell} {v : Ref} (hn : v.isNil h = false) :
    v.allocate T h = .ok h := by
  simp [Ref.allocate, hn]

/-- Allocating a nil pointer's target: the pointer now points to a fresh cell at the end of
the heap, which holds the zero value of the target type. -/
theorem Ref.allocate_nil {h h' : List Cell} {v : Ref} {t : Nat} (hk : v.kind T = .ptr)
    (ht : v.type? = some t) (hn : v.isNil h = true) (hal : v.allocate T h = .ok h') :
    v.elem T h' = .var (T.elem t) h.length ∧ h'[h.length]? = some (zero T (T.elem t)) := by
  cases v with
  | invalid => cases ht
  | val _ _ => simp [Ref.allocate, hn] at hal
  | var t' a =>
    cases ht
    simp only [Ref.allocate, hn, if_true, Except.ok.injEq] at hal
    subst hal
    have ha : a < h.length := by
      simp only [Ref.isNil, Ref.read_var] at hn
      split at hn <;> first | exact (List.getElem?_eq_some_iff.1 ‹h[a]? = _›).1 | cases hn
    refine ⟨Ref.elem_of_ptr _ hk rfl ?_, by simp⟩
    rw [Ref.read_var, List.getElem?_append_left (by simpa using ha), List.getElem?_set_self ha]

/-- From a nil pointer to `s`'s zero value the loop returns, when the pointer types from
`s` on end: each round allocates the next zero value. -/
theorem indirectLoop_zero_halts (dn : Bool) (v0 : Ref) {s : Nat} (hs : ElemsEnd T s) :
    ∀ {b : Nat} {h : List Cell}, h[b]? = some (zero T s) →
      ∃ n r, indirectLoop T dn v0 n (.var s b) false h = some r := by
  induction hs with
  | @stop s hk =>
    intro b h _
    refine ⟨1, _, indirectLoop_stop ?_ (by simpa using hk)⟩
    by_cases hi : T.kind s = .interface
    · simp [Ref.enterInterface, Ref.isNil, zero, hi, *]
    · exact Ref.enterInterface_of_kind dn (by simpa using hi)
  | @ptr s hk _ ih =>
    intro b h hb
    have hz : zero T s = .ptr none := by simp [zero, hk]
    obtain ⟨r, hr⟩ | ⟨h', hal, hr⟩ := indirectLoop_ptr_round dn v0 false (v := .var s b) (h := h) hk
    · exact ⟨1, r, hr 0⟩
    · have hn : (Ref.var s b).isNil h = true := by simp [Ref.isNil, hb, hz]
      obtain ⟨hel, hh'⟩ := Ref.allocate_nil (v := .var s b) hk rfl hn hal
      obtain ⟨n, r, hnr⟩ := ih hh'
      exact ⟨n + 1, r, by rw [hr n, if_neg Bool.false_ne_true, hel, hnr]⟩

/-- Over a finite chain, the loop returns. -/
theorem indirectLoop_halts (dn : Bool) (v0 : Ref) {h : List Cell} {v : Ref} (hc : Chain T h v) :
    ∃ n r, indirectLoop T dn v0 n v false h = some r ∧ Returns T dn r := by
  suffices ∃ n r, indirectLoop T dn v0 n v false h = some r from
    let ⟨n, r, hr⟩ := this; ⟨n, r, hr, indirectLoop_returns n v false h r hr⟩
  induction hc with
  | stop hk hi => exact ⟨1, _, indirectLoop_stop (Ref.enterInterface_of_kind dn hi) hk⟩
  | @iface v hi _ ih =>
    cases he : v.enterInterface T h dn with
    | none => exact ⟨1, _, indirectLoop_stop he (by rw [hi]; decide)⟩
    | some e =>
      obtain ⟨n, r, hr⟩ := ih
      exact ⟨n + 1, r, by rw [indirectLoop_enter he, Ref.enterInterface_eq_some he, hr]⟩
  | @nilPtr v t hk ht hn hs =>
    obtain ⟨r, hr⟩ | ⟨h', hal, hr⟩ := indirectLoop_ptr_round dn v0 false (h := h) hk
    · exact ⟨1, r, hr 0⟩
    · obtain ⟨hel, hh'⟩ := Ref.allocate_nil hk ht hn hal
      obtain ⟨n, r, hnr⟩ := indirectLoop_zero_halts dn v0 hs hh'
      exact ⟨n + 1, r, by rw [hr n, if_neg Bool.false_ne_true, hel, hnr]⟩
  | @ptr v hk hn _ ih =>
    obtain ⟨r, hr⟩ | ⟨h', hal, hr⟩ := indirectLoop_ptr_round dn v0 false (h := h) hk
    · exact ⟨1, r, hr 0⟩
    · rw [Ref.allocate_of_not_nil hn, Except.ok.injEq] at hal
      subst hal
      obtain ⟨n, r, hnr⟩ := ih
      exact ⟨n + 1, r, by rw [hr n, if_neg Bool.false_ne_true, hnr]⟩

/-- Over a chain that ends at the guard, the loop returns: the guard stops it at the
interface. -/
theorem indirectLoop_halts_guarded (dn : Bool) (v0 : Ref) {h : List Cell} {v : Ref}
    (hc : GuardedChain T h v) : ∃ n r, indirectLoop T dn v0 n v false h = some r := by
  induction hc with
  | chain hc => obtain ⟨n, r, hr, -⟩ := indirectLoop_halts dn v0 hc; exact ⟨n, r, hr⟩
  | @iface v hi _ ih =>
    cases he : v.enterInterface T h dn with
    | none => exact ⟨1, _, indirectLoop_stop he (by rw [hi]; decide)⟩
    | some e =>
      obtain ⟨n, r, hr⟩ := ih
      exact ⟨n + 1, r, by rw [indirectLoop_enter he, Ref.enterInterface_eq_some he, hr]⟩
  | @ptr v hk hn _ ih =>
    obtain ⟨r, hr⟩ | ⟨h', hal, hr⟩ := indirectLoop_ptr_round dn v0 false (h := h) hk
    · exact ⟨1, r, hr 0⟩
    · rw [Ref.allocate_of_not_nil hn, Except.ok.injEq] at hal
      subst hal
      obtain ⟨n, r, hnr⟩ := ih
      exact ⟨n + 1, r, by rw [hr n, if_neg Bool.false_ne_true, hnr]⟩
  | @guard v hk hi hself =>
    by_cases hb : (v.elem T h).kind T ≠ .ptr ∧ dn = true ∧ v.canSet = true
    · exact ⟨1, _, indirectLoop_break hk hb⟩
    · exact ⟨1, _, indirectLoop_guard hk hb ⟨hi, hself⟩⟩

/-- What `indirect` returns: the panic of `reflect.ValueOf(nil)`, or an outcome of the loop. -/
theorem indirect_returns {h : List Cell} {v : Ref} {n : Nat} {r : Except Panic Indirection}
    (hr : indirect T n v dn h = some r) : r = .error .reflectZeroValue ∨ Returns T dn r := by
  cases v with
  | invalid => cases hr; exact .inl rfl
  | var t a | val t x =>
    unfold indirect at hr
    dsimp only at hr
    split_ifs at hr <;> exact .inr (indirectLoop_returns n _ _ h r hr)

/-- `indirect` returns when its loop from `v` does: the round through the address of a
named value comes back to `v`. -/
theorem indirect_halts_of_loop {h : List Cell} {v : Ref}
    (hl : ∃ n r, indirectLoop T dn v n v false h = some r) :
    ∃ n r, indirect T n v dn h = some r ∧ (r = .error .reflectZeroValue ∨ Returns T dn r) := by
  suffices ∃ n r, indirect T n v dn h = some r from
    let ⟨n, r, hr⟩ := this; ⟨n, r, hr, indirect_returns hr⟩
  obtain ⟨n, r, hr⟩ := hl
  cases v with
  | invalid => exact ⟨0, _, rfl⟩
  | val t x => exact ⟨n, r, by simpa [indirect] using hr⟩
  | var t a =>
    by_cases hn : T.kind t ≠ .ptr ∧ T.named t = true
    · have hcond : T.kind t ≠ .ptr ∧ T.named t = true ∧ (Ref.var t a).canSet = true :=
        ⟨hn.1, hn.2, rfl⟩
      obtain ⟨r', hr'⟩ | ⟨h', hal, hr'⟩ := indirectLoop_ptr_round dn (.var t a) true (h := h)
        (v := .val (T.ptrTo t) (.ptr (some a))) (T.kind_ptrTo t)
      · exact ⟨1, r', by rw [indirect, if_pos hcond]; exact hr' 0⟩
      · rw [Ref.allocate_of_not_nil (v := .val (T.ptrTo t) (.ptr (some a))) (h := h) rfl,
          Except.ok.injEq] at hal
        subst hal
        exact ⟨n + 1, r, by rw [indirect, if_pos hcond, Ref.addr, hr' n, if_pos rfl, hr]⟩
    · have hcond : ¬(T.kind t ≠ .ptr ∧ T.named t = true ∧ (Ref.var t a).canSet = true) :=
        fun hc => hn ⟨hc.1, hc.2.1⟩
      exact ⟨n, r, by rw [indirect, if_neg hcond, hr]⟩

/-- When the chain `indirect` follows from `v` is finite, `indirect` returns, with one of
the outcomes of `Returns` or the panic of the zero `reflect.Value`: the cycle of
`type P *P` is the only way it runs forever. -/
theorem indirect_halts {h : List Cell} {v : Ref} (hc : Chain T h v) :
    ∃ n r, indirect T n v dn h = some r ∧ (r = .error .reflectZeroValue ∨ Returns T dn r) :=
  indirect_halts_of_loop (let ⟨n, r, hr, _⟩ := indirectLoop_halts dn v hc; ⟨n, r, hr⟩)

/-- The guard against an interface holding its own address works: over a chain that ends
at it, `indirect` returns, with one of the outcomes of `indirect_halts`. -/
theorem indirect_halts_guarded {h : List Cell} {v : Ref} (hc : GuardedChain T h v) :
    ∃ n r, indirect T n v dn h = some r ∧ (r = .error .reflectZeroValue ∨ Returns T dn r) :=
  indirect_halts_of_loop (indirectLoop_halts_guarded dn v hc)

end Chains

/-- A nil `*bool` variable: `indirect` allocates the `bool` and returns. -/
theorem indirect_halts_nil_pointer :
    Chain exampleTable [.ptr none] (.var 9 0) ∧
      ∃ n r, indirect exampleTable n (.var 9 0) false [.ptr none] = some r ∧
        (r = .error .reflectZeroValue ∨ Returns exampleTable false r) :=
  have hc : Chain exampleTable [.ptr none] (.var 9 0) := .nilPtr rfl rfl rfl (.stop (by decide))
  ⟨hc, indirect_halts hc⟩

/-- `var v interface{}; v = &v`: the cell `0` holds an interface whose dynamic value, of type
`*interface{}`, points back to it. -/
theorem indirect_halts_self_interface :
    GuardedChain exampleTable [.iface (some (5, .ptr (some 0)))] (.var 2 0) ∧
      ∃ n r, indirect exampleTable n (.var 2 0) false [.iface (some (5, .ptr (some 0)))] = some r ∧
        (r = .error .reflectZeroValue ∨ Returns exampleTable false r) :=
  have hc : GuardedChain exampleTable [.iface (some (5, .ptr (some 0)))] (.var 2 0) :=
    .iface rfl (.guard rfl rfl rfl)
  ⟨hc, indirect_halts_guarded hc⟩

end Heap

end BinDecoder
