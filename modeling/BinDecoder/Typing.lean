import BinDecoder.Calls
import BinDecoder.RoundTrip

/-!
# `Decode` writes values of the destination's type

Go's type system guarantees that `Decode(&x)` leaves in `x` a value of `x`'s type:
`rv.SetInt` takes an `int64` and truncates nothing the decoder read, because each case of
`decodeBin` reads exactly as many bytes as its kind is wide, and `rv.Set` checks the
type of what it is handed.  The model keeps values untyped, integers as `Int` and `Nat`,
so the guarantee is a theorem about it: each case of the dispatch reads at its kind's
width, `indirect` allocates the zero value of the pointer's element type, an absent
optional value is set to the zero value of its own type, and every value is written back
where it was read.

`HasType env t x` says that `x` is a value of type `t`: its shape is `t`'s, every integer
and float pattern fits the width of its kind (`int` being 64 bits wide), an array has its
length and a struct one value per field, and a pointer or interface holds a value of its
element or dynamic type.  `decode_hasType`: if the destination holds a value of its type
and every custom decoder returns a value of its receiver's type (`TypeEnv.MethodsTyped`),
a `Decode` that succeeds leaves a value of the destination's type.

The proof follows the decode: `Yields P m` says that every value `m` returns satisfies
`P`, and is closed under `>>=` and `<$>`; `TypedPath` types the paths `indirect` walks,
and `indirect` keeps the destination typed and its cursor at a path of the cursor's type.
-/

namespace BinDecoder

/-! ## Values of a type -/

/-- The width in bits of a signed integer type; `int` is 64 bits wide, as `toInt` has it. -/
def GoType.signedWidth : GoType → Option Nat
  | .int | .int64 => some 64
  | .int32 => some 32
  | .int16 => some 16
  | .int8 => some 8
  | _ => none

/-- The width in bits of an unsigned integer type. -/
def GoType.unsignedWidth : GoType → Option Nat
  | .uint | .uint64 | .uintptr => some 64
  | .uint32 => some 32
  | .uint16 => some 16
  | .uint8 => some 8
  | _ => none

/-- The width in bits of a float type, whose values the model keeps as bit patterns. -/
def GoType.floatWidth : GoType → Option Nat
  | .float32 => some 32
  | .float64 => some 64
  | _ => none

/-- The kinds whose values the model keeps as `other`. -/
def GoType.isOpaque : GoType → Bool
  | .complex64 | .complex128 | .unsafePointer | .chan | .func | .map => true
  | _ => false

section

variable (env : TypeEnv)

mutual
/-- `x` is a value of type `t`. -/
inductive HasType : GoType → Value → Prop where
  | bool {t : GoType} {b : Bool} : env.underlying t = .bool → HasType t (.bool b)
  | int {t : GoType} {w : Nat} {i : Int} : (env.underlying t).signedWidth = some w →
      -2 ^ (w - 1) ≤ i → i < 2 ^ (w - 1) → HasType t (.int i)
  | uint {t : GoType} {w n : Nat} : (env.underlying t).unsignedWidth = some w → n < 2 ^ w →
      HasType t (.uint n)
  | float {t : GoType} {w bits : Nat} : (env.underlying t).floatWidth = some w → bits < 2 ^ w →
      HasType t (.float bits)
  | string {t : GoType} {bs : List UInt8} : env.underlying t = .string → HasType t (.string bs)
  | other {t : GoType} {k : Nat} : (env.underlying t).isOpaque = true → HasType t (.other k)
  | array {t et : GoType} {xs : List Value} : env.underlying t = .array xs.length et →
      HasTypeElems et xs → HasType t (.array xs)
  | slice {t et : GoType} {xs : List Value} : env.underlying t = .slice et →
      HasTypeElems et xs → HasType t (.slice xs)
  | nilPtr {t et : GoType} : env.underlying t = .ptr et → HasType t (.ptr none)
  | ptr {t et : GoType} {y : Value} : env.underlying t = .ptr et → HasType et y →
      HasType t (.ptr (some y))
  | struct {t : GoType} {fs : List (Field GoType)} {vs : List Value} :
      env.underlying t = .struct fs → HasTypeFields fs vs → HasType t (.struct vs)
  | nilIface {t : GoType} : env.underlying t = .iface → HasType t (.iface none)
  | iface {t dt : GoType} {y : Value} : env.underlying t = .iface → HasType dt y →
      HasType t (.iface (some (dt, y)))

/-- `HasType` of every element. -/
inductive HasTypeElems : GoType → List Value → Prop where
  | nil (et : GoType) : HasTypeElems et []
  | cons {et : GoType} {x : Value} {xs : List Value} : HasType et x → HasTypeElems et xs →
      HasTypeElems et (x :: xs)

/-- One value of its field's type for each field. -/
inductive HasTypeFields : List (Field GoType) → List Value → Prop where
  | nil : HasTypeFields [] []
  | cons {f : Field GoType} {fs : List (Field GoType)} {v : Value} {vs : List Value} :
      HasType f.type v → HasTypeFields fs vs → HasTypeFields (f :: fs) (v :: vs)
end

/-- Every custom decoder returns a value of its receiver's type when it is handed one. -/
def TypeEnv.MethodsTyped : Prop :=
  ∀ n u, (env.decl n).unmarshaler = some u → ∀ x dec y d, HasType env (.named n) x →
    u.unmarshalBinary x dec = .ok y d → HasType env (.named n) y

end

/-! ## Computations whose results have a property -/

/-- Every value `m` returns satisfies `P`. -/
def Yields {α : Type} (P : α → Prop) (m : DecM α) : Prop :=
  ∀ dec a d, m dec = .ok a d → P a

namespace Yields

variable {α β : Type} {P : α → Prop} {Q : β → Prop}

theorem pure {a : α} (h : P a) : Yields P (Pure.pure a : DecM α) := fun _ _ _ he => by
  cases he; exact h

theorem top (m : DecM α) : Yields (fun _ => True) m := fun _ _ _ _ => trivial

theorem mono {P' : α → Prop} (hPP : ∀ a, P a → P' a) {m : DecM α} (hm : Yields P m) :
    Yields P' m :=
  fun dec a d h => hPP a (hm dec a d h)

theorem fail (e : DecodeError) : Yields P (DecM.fail e : DecM α) := fun _ _ _ => nofun

theorem panic (p : Panic) : Yields P (DecM.panic p : DecM α) := fun _ _ _ => nofun

theorem bind {m : DecM α} {f : α → DecM β} (hm : Yields P m) (hf : ∀ a, P a → Yields Q (f a)) :
    Yields Q (m >>= f) := by
  intro dec b d h
  rw [DecM.bind_apply] at h
  cases hx : m dec with
  | ok a d' => rw [hx, Outcome.bind_ok] at h; exact hf a (hm dec a d' hx) d' b d h
  | _ => rw [hx] at h; cases h

theorem map {m : DecM α} {g : α → β} (hm : Yields P m) (hg : ∀ a, P a → Q (g a)) :
    Yields Q (g <$> m) :=
  hm.bind fun a ha => pure (hg a ha)

/-- A step after `indirect`, which returns nothing but what it found. -/
theorem resolve_bind {o : Option (Except Panic α)} {f : α → DecM β}
    (hf : ∀ a, o = some (.ok a) → Yields Q (f a)) : Yields Q (resolve o >>= f) := by
  intro dec b d h
  rcases o with _ | q | a
  · cases h
  · cases h
  · exact hf a rfl dec b d h

end Yields

/-! ## What the reads return -/

theorem yields_readFixed (what : String) (w : Nat) (order : ByteOrder) :
    Yields (· < 256 ^ w) (readFixed what w order) := fun dec a d h => by
  unfold readFixed at h
  split_ifs at h
  cases h
  exact order.uint_lt w _

theorem yields_readUint64 (order : ByteOrder) : Yields (· < 2 ^ 64) (readUint64 order) := by
  intro dec a d h
  unfold readUint64 at h
  split_ifs at h
  exact (Yields.map (P := fun _ => True) (Q := (· < 2 ^ 64)) (fun _ _ _ _ => trivial)
    fun bs _ => (order.uint_lt 8 bs).trans_eq (by norm_num)) dec a d h

theorem yields_readFloat32 (order : ByteOrder) : Yields (· < 2 ^ 32) (readFloat32 order) := by
  intro dec a d h
  unfold readFloat32 at h
  dsimp only at h
  split_ifs at h
  cases h
  exact order.uint_lt 4 _

theorem yields_readFloat64 (order : ByteOrder) : Yields (· < 2 ^ 64) (readFloat64 order) := by
  intro dec a d h
  unfold readFloat64 at h
  dsimp only at h
  split_ifs at h
  cases h
  exact order.uint_lt 8 _

/-- Go's `intW(n)` of a `w`-bit pattern is in the range of `intW`. -/
theorem toSigned_mem {w n : Nat} (hw : 0 < w) (hn : n < 2 ^ w) :
    -2 ^ (w - 1) ≤ toSigned w n ∧ toSigned w n < 2 ^ (w - 1) := by
  have h2 : (2 : Int) ^ w = 2 * 2 ^ (w - 1) := by
    rw [← pow_succ']; congr 1; omega
  have hn' : (n : Int) < 2 ^ w := by exact_mod_cast hn
  unfold toSigned
  split_ifs with h
  · have h' : (n : Int) < 2 ^ (w - 1) := by exact_mod_cast h
    omega
  · have h' : (2 : Int) ^ (w - 1) ≤ n := by exact_mod_cast not_lt.mp h
    omega

/-- A signed read: a `w`-bit pattern read as `intW`. -/
theorem yields_toSigned {w : Nat} (hw : 0 < w) {m : DecM Nat} (hm : Yields (· < 2 ^ w) m) :
    Yields (fun i => -2 ^ (w - 1) ≤ i ∧ i < 2 ^ (w - 1)) (m >>= fun n => pure (toSigned w n)) :=
  hm.bind fun _ hn => .pure (toSigned_mem hw hn)

theorem yields_readInt8 : Yields (fun i => -2 ^ (8 - 1) ≤ i ∧ i < 2 ^ (8 - 1)) readInt8 :=
  (Yields.top _).bind fun b _ => .pure (toSigned_mem (by norm_num) b.toNat_lt)

theorem yields_readUint16 (order : ByteOrder) : Yields (· < 2 ^ 16) (readUint16 order) :=
  (yields_readFixed _ 2 order).mono fun _ h => h.trans_eq (by norm_num)

theorem yields_readUint32 (order : ByteOrder) : Yields (· < 2 ^ 32) (readUint32 order) :=
  (yields_readFixed _ 4 order).mono fun _ h => h.trans_eq (by norm_num)

/-- A float32 pattern stays one through the round trip through `float64`. -/
theorem float32RoundTrip_lt {bits : Nat} (h : bits < 2 ^ 32) : float32RoundTrip bits < 2 ^ 32 := by
  unfold float32RoundTrip
  split_ifs
  · exact Nat.or_lt_two_pow h (by norm_num)
  · exact h

/-! ## Zero values -/

section Zero

variable {env : TypeEnv}

theorem HasTypeElems.replicate {et : GoType} {x : Value} (hx : HasType env et x) :
    ∀ n, HasTypeElems env et (List.replicate n x)
  | 0 => .nil et
  | n + 1 => .cons hx (replicate hx n)

/-- The zero values of a struct's fields, given the zero values below a depth. -/
theorem HasTypeFields.zeroFields {D : Nat}
    (ih : ∀ u, (env.zero u).depth < D → HasType env u (env.zero u)) :
    ∀ fs : List (Field GoType), Value.depthList (zeroFields env.namedZero fs) < D →
      HasTypeFields env fs (zeroFields env.namedZero fs)
  | [], _ => .nil
  | f :: fs, h => by
    simp only [BinDecoder.zeroFields, Value.depthList, max_lt_iff] at h
    exact .cons (ih f.type h.1) (HasTypeFields.zeroFields ih fs h.2)

/-- The zero value of a type is a value of the type, given that the zero values of smaller
depth are: an array or a struct holds the zero values of its element or field types. -/
theorem TypeEnv.hasType_zero_of_lt (t : GoType)
    (ih : ∀ u, (env.zero u).depth < (env.zero t).depth → HasType env u (env.zero u)) :
    HasType env t (env.zero t) := by
  rw [← env.zero_underlying] at ih ⊢
  cases hu : env.underlying t with
  | named m =>
    have h := env.underlying_underlying t
    rw [hu] at h
    exact absurd h (env.underlying_ne_named m m)
  | array n et =>
    rw [hu] at ih
    refine .array (by rw [hu, List.length_replicate]) ?_
    cases n with
    | zero => exact .nil et
    | succ n =>
      have hm : env.zero et ∈ List.replicate (n + 1) (env.zero et) :=
        List.mem_replicate.mpr ⟨n.succ_ne_zero, rfl⟩
      have := Value.depth_le_of_mem hm
      exact HasTypeElems.replicate (ih et (by
        show _ < Value.depthList (List.replicate (n + 1) (env.zero et)) + 1; omega)) _
  | struct fs =>
    rw [hu] at ih
    exact .struct hu (HasTypeFields.zeroFields ih fs (by show _ < Value.depthList _ + 1; omega))
  | ptr et => exact .nilPtr hu
  | slice et => exact .slice hu (.nil et)
  | iface => exact .nilIface hu
  | bool => exact .bool hu
  | string => exact .string hu
  | int | int8 | int16 | int32 | int64 =>
    exact .int (by rw [hu]; rfl) (by norm_num) (by norm_num)
  | uint | uint8 | uint16 | uint32 | uint64 | uintptr => exact .uint (by rw [hu]; rfl) (by norm_num)
  | float32 | float64 => exact .float (by rw [hu]; rfl) (by norm_num)
  | complex64 | complex128 | unsafePointer | chan | func | map => exact .other (by rw [hu]; rfl)

/-- `reflect.Zero(t)` is a value of type `t`. -/
theorem TypeEnv.hasType_zero (t : GoType) : HasType env t (env.zero t) := by
  obtain ⟨n, h⟩ : ∃ n, (env.zero t).depth = n := ⟨_, rfl⟩
  induction n using Nat.strong_induction_on generalizing t with
  | _ n ih => exact env.hasType_zero_of_lt t fun u hu => ih _ (h ▸ hu) u rfl

end Zero

/-! ## Paths of a typed value -/

/-- `TypedPath r t0 p t`: in the value `r` of type `t0`, the path `p` leads to a value of
type `t`. -/
inductive TypedPath (env : TypeEnv) (r : Value) (t0 : GoType) : List Step → GoType → Prop where
  | nil : TypedPath env r t0 [] t0
  | deref {p : List Step} {t et : GoType} {y : Value} : TypedPath env r t0 p t →
      env.underlying t = .ptr et → r.get p = some (.ptr (some y)) →
      TypedPath env r t0 (p ++ [.deref]) et
  | dyn {p : List Step} {t dt : GoType} {y : Value} : TypedPath env r t0 p t →
      env.underlying t = .iface → r.get p = some (.iface (some (dt, y))) →
      TypedPath env r t0 (p ++ [.dyn]) dt

namespace TypedPath

variable {env : TypeEnv} {r : Value} {t0 : GoType}

/-- A typed path of a value of its type leads to a value of the path's type. -/
theorem get {p : List Step} {t : GoType} (hx : HasType env t0 r) (hp : TypedPath env r t0 p t) :
    ∃ y, r.get p = some y ∧ HasType env t y := by
  induction hp with
  | nil => exact ⟨r, rfl, hx⟩
  | deref _ hu hg ih =>
    obtain ⟨y', hy', ht⟩ := ih
    rw [hg] at hy'
    cases hy'
    cases ht with
    | ptr hu' hy =>
      rw [hu] at hu'
      cases hu'
      exact ⟨_, by rw [Value.get_append, hg]; rfl, hy⟩
  | dyn _ _ hg ih =>
    obtain ⟨y', hy', ht⟩ := ih
    rw [hg] at hy'
    cases hy'
    cases ht with
    | iface _ hy => exact ⟨_, by rw [Value.get_append, hg]; rfl, hy⟩

/-- A typed path stays one when the value at its end is replaced. -/
theorem set {p : List Step} {t : GoType} (hp : TypedPath env r t0 p t) (y' : Value) :
    TypedPath env (r.set p y') t0 p t := by
  induction hp generalizing y' with
  | nil => exact .nil
  | deref _ hu hg ih =>
    rw [Value.set_append _ _ _ _ _ hg]
    exact .deref (ih _) hu (Value.get_set_self _ _ _ (by rw [hg]; nofun))
  | dyn _ hu hg ih =>
    rw [Value.set_append _ _ _ _ _ hg]
    exact .dyn (ih _) hu (Value.get_set_self _ _ _ (by rw [hg]; nofun))

end TypedPath

/-- A value of the type of a typed path, written at its end, makes the whole value typed:
the path passes only pointers and interfaces, whose one element the write replaces. -/
theorem HasType.set {env : TypeEnv} {r : Value} {t0 : GoType} {p : List Step} {t : GoType}
    (hp : TypedPath env r t0 p t) {y : Value} (hy : HasType env t y) :
    HasType env t0 (r.set p y) := by
  induction hp generalizing y with
  | nil => exact hy
  | deref _ hu hg ih =>
    rw [Value.set_append _ _ _ _ _ hg]
    exact ih (.ptr hu hy)
  | dyn _ hu hg ih =>
    rw [Value.set_append _ _ _ _ _ hg]
    exact ih (.iface hu hy)

/-- A cursor at a path of its own type. -/
def RValue.Typed (env : TypeEnv) (r : Value) (t0 : GoType) : RValue → Prop
  | .invalid => True
  | .loc t p _ | .addr t p => TypedPath env r t0 p t

/-- What `indirect` returns over a typed destination: the destination still typed, the
value it stopped at at a path of its type, and a custom decoder of a defined type with the
path of a receiver of that type. -/
def Indirection.Typed (env : TypeEnv) (t0 : GoType) (i : Indirection) : Prop :=
  HasType env t0 i.root ∧ i.value.Typed env i.root t0 ∧
    ∀ u q, i.unmarshaler = some (u, q) →
      ∃ n, (env.decl n).unmarshaler = some u ∧ TypedPath env i.root t0 q (.named n)

/-! ## `indirect` keeps the destination typed -/

section Indirect

variable {env : TypeEnv} {t0 : GoType} {r : Value}

theorem RValue.Typed.elem {v : RValue} (hv : v.Typed env r t0) : (v.elem env r).Typed env r t0 := by
  cases v with
  | invalid => trivial
  | addr t p => exact hv
  | loc t p s =>
    simp only [RValue.elem]
    split
    · next _ _ hu hg => exact .deref hv hu hg
    · next _ _ hu hg => exact .dyn hv hu hg
    · trivial

theorem RValue.elem_of_enterInterface {v e : RValue} {dn : Bool}
    (h : v.enterInterface env r dn = some e) : e = v.elem env r := by
  simp only [RValue.enterInterface] at h
  split_ifs at h
  exact (Option.some.inj h).symm

/-- A value of a pointer type is a nil pointer or points to a value of the element type. -/
theorem HasType.ptr_inv {t et : GoType} {y : Value} (h : HasType env t y)
    (hu : env.underlying t = .ptr et) : y = .ptr none ∨ ∃ z, y = .ptr (some z) ∧ HasType env et z := by
  cases h with
  | nilPtr _ => exact .inl rfl
  | ptr hu' hz => rw [hu] at hu'; cases hu'; exact .inr ⟨_, rfl, hz⟩
  | _ => rw [hu] at *; contradiction

/-- `v.Set(reflect.New(v.Type().Elem()))` at a pointer of a typed destination: the
destination stays typed with `v` at the same path, the pointer is not nil after it, and a
pointer that was not nil is left as it was. -/
theorem RValue.Typed.allocate {v : RValue} {r' : Value} (hx : HasType env t0 r)
    (hv : v.Typed env r t0) (hk : v.kind env = .ptr) (ha : v.allocate env r = .ok r') :
    HasType env t0 r' ∧ v.Typed env r' t0 ∧ (v.isNil r = false → r' = r) ∧
      ∀ t p s, v = .loc t p s → ∃ y, r'.get p = some (.ptr (some y)) := by
  cases v with
  | invalid => cases hk
  | addr t p =>
    simp only [RValue.allocate, RValue.isNil_addr, Bool.false_eq_true, if_false] at ha
    cases ha
    exact ⟨hx, hv, fun _ => rfl, nofun⟩
  | loc t p s =>
    obtain ⟨et, hu⟩ := env.underlying_of_kind_ptr hk
    obtain ⟨y0, hg, hy0⟩ := hv.get hx
    rcases hy0.ptr_inv hu with rfl | ⟨z, rfl, -⟩
    · cases s
      · simp [RValue.allocate, RValue.isNil, hg] at ha
      · simp only [RValue.allocate, RValue.isNil, hg, if_true] at ha
        cases ha
        have he : env.elem t = et := by simp only [TypeEnv.elem, hu]
        refine ⟨HasType.set hv (.ptr hu (he ▸ env.hasType_zero et)), hv.set _,
          by simp [RValue.isNil, hg], ?_⟩
        rintro _ _ _ ⟨⟩
        exact ⟨_, Value.get_set_self _ _ _ (by rw [hg]; nofun)⟩
    · simp only [RValue.allocate, RValue.isNil, hg, Bool.false_eq_true, if_false] at ha
      cases ha
      exact ⟨hx, hv, fun _ => rfl, by rintro _ _ _ ⟨⟩; exact ⟨_, hg⟩⟩

/-- The custom decoder `indirect` finds at a typed pointer is the method of a defined type,
and the pointer's target is a value of that type. -/
theorem RValue.Typed.receiver {v : RValue} {u : Unmarshaler} (hv : v.Typed env r t0)
    (hm : v.type?.bind env.methodOf = some u)
    (hget : ∀ t p s, v = .loc t p s → ∃ y, r.get p = some (.ptr (some y))) :
    ∃ n, (env.decl n).unmarshaler = some u ∧ TypedPath env r t0 v.target (.named n) := by
  cases v with
  | invalid => cases hm
  | loc t p s =>
    cases t with
    | ptr et =>
      obtain ⟨n, rfl, hn⟩ := env.methodOf_ptr_some hm
      obtain ⟨y, hy⟩ := hget _ _ _ rfl
      exact ⟨n, hn, .deref hv rfl hy⟩
    | _ => cases hm
  | addr t p =>
    obtain ⟨n, rfl, hn⟩ := env.methodOf_ptr_some hm
    exact ⟨n, hn, hv⟩

/-- `indirect`'s loop over a typed destination, from a cursor at a path of its type. -/
theorem indirectLoop_typed (dn : Bool) (v0 : RValue) :
    ∀ (n : Nat) (v : RValue) (haveAddr : Bool) (r : Value) (i : Indirection),
      HasType env t0 r → v.Typed env r t0 →
      (haveAddr = true → v.isNil r = false ∧ v0.Typed env r t0) →
      indirectLoop env dn v0 n v haveAddr r = some (.ok i) → i.Typed env t0
  | 0, _, _, _, _, _, _, _, h => nomatch h
  | n + 1, v, haveAddr, r, i, hx, hv, ha, h => by
    have ih := indirectLoop_typed dn v0 n
    rw [indirectLoop] at h
    cases he : v.enterInterface env r dn with
    | some e =>
      rw [he] at h
      exact ih e false r i hx (RValue.elem_of_enterInterface he ▸ hv.elem) nofun h
    | none =>
      rw [he] at h
      dsimp only at h
      by_cases hk : v.kind env ≠ .ptr
      · rw [if_pos hk] at h; cases h; exact ⟨hx, hv, nofun⟩
      rw [if_neg hk] at h
      by_cases hb : (v.elem env r).kind env ≠ .ptr ∧ dn = true ∧ v.canSet = true
      · rw [if_pos hb] at h; cases h; exact ⟨hx, hv, nofun⟩
      rw [if_neg hb] at h
      cases hal : v.allocate env r with
      | error q => rw [hal] at h; cases h
      | ok r' =>
        rw [hal] at h
        dsimp only at h
        obtain ⟨hx', hv', hsame, hget⟩ := hv.allocate hx (not_not.mp hk) hal
        cases hm : v.type?.bind env.methodOf with
        | some u =>
          rw [hm] at h
          cases h
          exact ⟨hx', trivial, by rintro u' q ⟨⟩; exact hv'.receiver hm hget⟩
        | none =>
          rw [hm] at h
          cases haveAddr with
          | true =>
            obtain ⟨hnil, h0⟩ := ha rfl
            cases hsame hnil
            exact ih v0 false _ i hx h0 nofun h
          | false => exact ih _ false r' i hx' hv'.elem nofun h

/-- `indirect` over a typed destination, from a cursor at a path of its type. -/
theorem indirect_typed (dn : Bool) (n : Nat) {v : RValue} {i : Indirection}
    (hx : HasType env t0 r) (hv : v.Typed env r t0) (h : indirect env n v dn r = some (.ok i)) :
    i.Typed env t0 := by
  cases v with
  | invalid => cases h
  | loc t p s =>
    simp only [indirect] at h
    split_ifs at h
    · exact indirectLoop_typed dn _ n (.addr t p) true r i hx hv (fun _ => ⟨rfl, hv⟩) h
    · exact indirectLoop_typed dn _ n _ false r i hx hv nofun h
  | addr t p => exact indirectLoop_typed dn _ n _ false r i hx hv nofun h

end Indirect

/-! ## The dispatch writes values of the kind it reads -/

section Dispatch

variable {env : TypeEnv}

theorem HasType.array_inv {t et : GoType} {k : Nat} {x : Value} (h : HasType env t x)
    (hu : env.underlying t = .array k et) :
    ∃ xs, x = .array xs ∧ xs.length = k ∧ HasTypeElems env et xs := by
  cases h with
  | array hu' he => rw [hu] at hu'; cases hu'; exact ⟨_, rfl, rfl, he⟩
  | _ => rw [hu] at *; contradiction

theorem HasType.struct_inv {t : GoType} {fs : List (Field GoType)} {x : Value}
    (h : HasType env t x) (hu : env.underlying t = .struct fs) :
    ∃ vs, x = .struct vs ∧ HasTypeFields env fs vs := by
  cases h with
  | struct hu' hf => rw [hu] at hu'; cases hu'; exact ⟨_, rfl, hf⟩
  | _ => rw [hu] at *; contradiction

variable (cu16 : CompactU16) {rec : DecodeFn}
  (hrec : ∀ t s o x, HasType env t x → Yields (HasType env t) (rec t s o x))
include hrec

theorem yields_decodeElems (et : GoType) (opt : FieldOption) :
    ∀ xs, HasTypeElems env et xs →
      Yields (fun ys => ys.length = xs.length ∧ HasTypeElems env et ys) (decodeElems rec et opt xs)
  | [], _ => .pure ⟨rfl, .nil et⟩
  | _ :: xs, .cons hx hxs => (hrec _ _ _ _ hx).bind fun _ hy =>
    (yields_decodeElems et opt xs hxs).bind fun _ h =>
      .pure ⟨by rw [List.length_cons, List.length_cons, h.1], .cons hy h.2⟩

theorem yields_decodeFields :
    ∀ fs vs m seen, HasTypeFields env fs vs →
      Yields (HasTypeFields env fs) (decodeFields env rec fs vs m seen)
  | [], [], _, _, _ => .pure .nil
  | f :: fs, v :: vs, m, seen, .cons hv hvs => by
    have ih := yields_decodeFields fs vs
    rw [decodeFields]
    by_cases hskip : f.tag.skip = true
    · rw [if_pos hskip]; exact (ih _ _ hvs).map fun _ h => .cons hv h
    rw [if_neg hskip]
    by_cases hord : (!f.tag.binaryExtension && seen) = true
    · rw [if_pos hord]; exact .panic _
    rw [if_neg hord]
    refine (Yields.top _).bind fun exhausted _ => ?_
    split
    · exact (ih _ _ hvs).map fun _ h => .cons hv h
    · exact (hrec _ _ _ _ hv).bind fun _ hv' =>
        (Yields.top _).bind fun _ _ => (ih _ _ hvs).map fun _ h => .cons hv' h

/-- Each case of the dispatch returns a value of the type it decodes. -/
theorem yields_decodeKind (opt : FieldOption) {t : GoType} {x : Value} (hx : HasType env t x) :
    Yields (HasType env t) (decodeKind env cu16 rec opt t x) := by
  unfold decodeKind
  cases hu : env.underlying t with
  | string => exact (Yields.top _).map fun _ _ => .string hu
  | uint8 => exact (Yields.top _).map fun b _ => .uint (by rw [hu]; rfl) b.toNat_lt
  | int8 =>
    exact yields_readInt8.map fun _ h => .int (by rw [hu]; rfl) h.1 h.2
  | int16 =>
    exact (yields_toSigned (by norm_num) (yields_readUint16 _)).map
      fun _ h => .int (by rw [hu]; rfl) h.1 h.2
  | int32 =>
    exact (yields_toSigned (by norm_num) (yields_readUint32 _)).map
      fun _ h => .int (by rw [hu]; rfl) h.1 h.2
  | int64 =>
    exact (yields_toSigned (by norm_num) (yields_readUint64 _)).map
      fun _ h => .int (by rw [hu]; rfl) h.1 h.2
  | uint16 => exact (yields_readUint16 _).map fun _ h => .uint (by rw [hu]; rfl) h
  | uint32 => exact (yields_readUint32 _).map fun _ h => .uint (by rw [hu]; rfl) h
  | uint64 => exact (yields_readUint64 _).map fun _ h => .uint (by rw [hu]; rfl) h
  | float32 =>
    exact (yields_readFloat32 _).map fun _ h => .float (by rw [hu]; rfl) (float32RoundTrip_lt h)
  | float64 => exact (yields_readFloat64 _).map fun _ h => .float (by rw [hu]; rfl) h
  | bool => exact (Yields.top _).map fun _ _ => .bool hu
  | iface => exact .pure hx
  | array k et =>
    obtain ⟨xs, rfl, hlen, hxs⟩ := hx.array_inv hu
    exact (yields_decodeElems hrec et opt xs hxs).map fun _ h =>
      .array (by rw [hu, h.1, hlen]) h.2
  | slice et =>
    refine (Yields.top _).bind fun l _ => ?_
    rcases makeSlice_cases env et l with ⟨p, hp, -⟩ | ⟨-, hp⟩ <;> rw [hp]
    · rw [DecM.panic_bind]
      exact .panic _
    · rw [DecM.pure_bind]
      exact (yields_decodeElems hrec et opt _ (HasTypeElems.replicate (env.hasType_zero et) _)).map
        fun _ h => .slice hu h.2
  | struct fs =>
    obtain ⟨vs, rfl, hvs⟩ := hx.struct_inv hu
    exact (yields_decodeFields hrec _ _ _ _ hvs).map fun _ h => .struct hu h
  | int | uint | uintptr | complex64 | complex128 | unsafePointer | chan | func | map | ptr _
  | named _ => exact .fail _

omit hrec in
/-- `rv.Set(reflect.Zero(rv.Type()))` at a typed cursor. -/
theorem yields_setZero {t0 : GoType} {r : Value} {rv : RValue} (hv : rv.Typed env r t0) :
    Yields (HasType env t0) (setZero env rv r) := by
  cases rv with
  | loc t p s =>
    cases s
    · exact .panic _
    · exact .pure (HasType.set hv (env.hasType_zero t))
  | addr => exact .panic _
  | invalid => exact .panic _

/-- What follows `indirect`: a custom decoder, which the program's methods make return a
value of its receiver's type, or the dispatch at the value `indirect` stopped at, written
back where it was read. -/
theorem yields_decodeValue (hm : env.MethodsTyped) (opt : FieldOption) {t0 : GoType}
    {i : Indirection} (hi : i.Typed env t0) :
    Yields (HasType env t0) (decodeValue env cu16 rec opt i.unmarshaler i.value i.root) := by
  rcases i with ⟨u, rv, r⟩
  obtain ⟨hx, hv, hu⟩ := hi
  rcases u with _ | ⟨um, q⟩
  · cases rv with
    | invalid => exact .panic _
    | addr => exact .fail _
    | loc t p s =>
      obtain ⟨y, hy, hty⟩ := TypedPath.get hx hv
      have hat : r.at p = y := by rw [Value.at, hy]; rfl
      exact (yields_decodeKind cu16 hrec opt (hat ▸ hty)).map fun _ h => HasType.set hv h
  · obtain ⟨n, hn, hq⟩ := hu um q rfl
    obtain ⟨y, hy, hty⟩ := TypedPath.get hx hq
    have hat : r.at q = y := by rw [Value.at, hy]; rfl
    exact Yields.map (P := HasType env (.named n))
      (fun dec a d h => hm n um hn _ dec a d (hat ▸ hty) h) fun _ h => HasType.set hq h

end Dispatch

/-! ## `decodeBin` and `Decode` -/

/-- `decodeBin` on a typed destination returns a value of the destination's type. -/
theorem yields_decodeBin {env : TypeEnv} (cu16 : CompactU16) (hm : env.MethodsTyped) :
    ∀ n t s o x, HasType env t x → Yields (HasType env t) (decodeBin env cu16 n t s o x)
  | 0, _, _, _, _, _ => fun _ _ _ h => nomatch h
  | n + 1, t, s, o, x, hx => by
    have ih := yields_decodeBin cu16 hm n
    simp only [decodeBin]
    refine Yields.resolve_bind fun ⟨u, rv, r⟩ hi => ?_
    have hti := indirect_typed _ n hx (show (RValue.loc t [] s).Typed env x t from .nil) hi
    split
    · refine (Yields.top _).bind fun b _ => ?_
      split
      · exact yields_setZero hti.2.1
      · refine Yields.resolve_bind fun i' hi' => ?_
        exact yields_decodeValue cu16 ih hm _ (indirect_typed _ n hti.1 hti.2.1 hi')
    · exact yields_decodeValue cu16 ih hm _ hti

/-- `Decode(v)` in the Bin encoding, with `v` a value of its type: when it succeeds, the
new value is of the same type.  Every integer it decoded is in the range of its kind,
every float fits its width, every array keeps its length and every struct its fields. -/
theorem decode_hasType {env : TypeEnv} (cu16 : CompactU16) (other : OtherDecoders)
    (hm : env.MethodsTyped) (fuel : Nat) {ty : GoType} {v : Value} (hv : HasType env ty v)
    {dec d : Decoder} (hbin : dec.encoding = .bin) {y : Value}
    (h : decode env cu16 other fuel (some (ty, v)) dec = .ok y d) : HasType env ty y := by
  rw [decode_bin env cu16 other _ _ hbin] at h
  unfold decodeWithOptionBin at h
  dsimp only at h
  split_ifs at h
  · exact yields_decodeBin cu16 hm fuel ty false none v hv dec y d h
  · cases h

/-- The `UnmarshalBinary` of `*Custom` stores a byte, which is in the range of `uint8`. -/
theorem customEnv_methodsTyped : customEnv.MethodsTyped := by
  intro n u hu x dec y d _ h
  by_cases hn : n = "Custom"
  · subst hn
    cases Option.some.inj hu
    exact Yields.map (Q := HasType customEnv (.named "Custom")) (Yields.top readByte)
      (fun b _ => .uint (w := 8) rfl b.toNat_lt) dec y d h
  · simp [customEnv, hn] at hu

/-- `struct { A Custom; B int16 }`, both fields little-endian. -/
def pairType : GoType :=
  .struct [⟨"A", true, ⟨"", false, .littleEndian, false, false⟩, .named "Custom"⟩,
    ⟨"B", true, ⟨"", false, .littleEndian, false, false⟩, .int16⟩]

/-- `Decode(&p)` for a `pairType` on `07 FE FF`: `Custom`'s `UnmarshalBinary` reads `A`,
`B` is `-2`, and the result is a `*pairType` again. -/
theorem decode_hasType_pair :
    customEnv.MethodsTyped ∧
      HasType customEnv (.ptr pairType) (.ptr (some (.struct [.uint 0, .int 0]))) ∧
      (newBinDecoder [7, 0xFE, 0xFF] (by decide)).encoding = .bin ∧
      decode customEnv .rejecting .failing 4 (some (.ptr pairType, .ptr (some (.struct [.uint 0, .int 0]))))
          (newBinDecoder [7, 0xFE, 0xFF] (by decide)) =
        .ok (.ptr (some (.struct [.uint 7, .int (-2)])))
          ((newBinDecoder [7, 0xFE, 0xFF] (by decide)).setPos 3) ∧
      HasType customEnv (.ptr pairType) (.ptr (some (.struct [.uint 7, .int (-2)]))) :=
  have hv : HasType customEnv (.ptr pairType) (.ptr (some (.struct [.uint 0, .int 0]))) :=
    .ptr rfl (.struct rfl (.cons (.uint (w := 8) rfl (by norm_num))
      (.cons (.int (w := 16) rfl (by norm_num) (by norm_num)) .nil)))
  have h : decode customEnv .rejecting .failing 4
      (some (.ptr pairType, .ptr (some (.struct [.uint 0, .int 0]))))
      (newBinDecoder [7, 0xFE, 0xFF] (by decide)) =
      .ok (.ptr (some (.struct [.uint 7, .int (-2)])))
        ((newBinDecoder [7, 0xFE, 0xFF] (by decide)).setPos 3) := rfl
  ⟨customEnv_methodsTyped, hv, rfl, h,
    decode_hasType .rejecting .failing customEnv_methodsTyped 4 hv rfl h⟩

end BinDecoder
