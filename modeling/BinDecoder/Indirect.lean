import BinDecoder.Reflect

/-!
# What `indirect` does

The cases of `indirect` the decoder runs into, each as one equation:

* `indirect_plain`: a settable value that is neither a pointer nor an interface, and
  whose pointer type has no custom decoder, is where `indirect` stops, after one round
  through its address when the type has a name;
* `indirect_unmarshaler`: a settable value of a defined type `N` whose pointer type
  `*N` has a custom decoder hands out that decoder and the zero `reflect.Value`, whether
  or not the directive is optional;
* `indirectLoop_nil_optional`: under an optional directive the loop stops at a nil
  pointer, so that the caller can leave it nil;
* `indirectLoop_deref`: otherwise one round goes down a pointer that has no custom
  decoder, allocating its target when it is nil;
* `indirectLoop_method`: at a pointer whose type has one, the round allocates the
  target and hands the decoder out.

`indirectLoop_unmarshaler` says that the only decoders `indirect` returns are methods
of types.
-/

namespace BinDecoder

variable (env : TypeEnv)

namespace RValue

variable (r : Value)

@[simp] theorem kind_loc (t : GoType) (p : List Step) (s : Bool) :
    (loc t p s).kind env = env.kind t := rfl

@[simp] theorem kind_addr (t : GoType) (p : List Step) : (addr t p).kind env = .ptr := rfl

@[simp] theorem isNil_addr (t : GoType) (p : List Step) : (addr t p).isNil r = false := rfl

@[simp] theorem elem_addr (t : GoType) (p : List Step) :
    (addr t p).elem env r = loc t p true := rfl

/-- A pointer or interface that is not nil: `v.Elem()` goes one step down. -/
theorem elem_ptr {t et : GoType} {p : List Step} {s : Bool} {y : Value}
    (ht : env.underlying t = .ptr et) (hr : r.get p = some (.ptr (some y))) :
    (loc t p s).elem env r = loc et (p ++ [.deref]) true := by
  simp only [elem, ht, hr]

/-- Neither a pointer nor an interface: `indirect`'s loop has nothing to enter. -/
theorem enterInterface_of_ne (v : RValue) (dn : Bool) (h : v.kind env ≠ .interface) :
    v.enterInterface env r dn = none := by
  simp [enterInterface, h]

end RValue

/-- The loop stops at once at a value that is neither a pointer nor an interface. -/
theorem indirectLoop_stop {t : GoType} (hp : env.kind t ≠ .ptr) (hi : env.kind t ≠ .interface)
    (dn : Bool) (v0 : RValue) (n : Nat) (p : List Step) (s h : Bool) (r : Value) :
    indirectLoop env dn v0 (n + 1) (.loc t p s) h r = some (.ok ⟨none, .loc t p s, r⟩) := by
  simp only [indirectLoop, RValue.enterInterface_of_ne env r (.loc t p s) dn (by simpa using hi),
    RValue.kind_loc, hp, ne_eq, not_false_eq_true, if_true]

/-- The round through the address of a named value whose pointer type has no custom
decoder comes back to the value. -/
theorem indirectLoop_addr {t : GoType} (hm : env.methodOf (.ptr t) = none) (dn : Bool)
    (v0 : RValue) (n : Nat) (p : List Step) (r : Value) :
    indirectLoop env dn v0 (n + 1) (.addr t p) true r = indirectLoop env dn v0 n v0 false r := by
  rw [indirectLoop]
  simp only [RValue.enterInterface_of_ne env r (.addr t p) dn (by simp), RValue.kind_addr,
    RValue.elem_addr, RValue.canSet, RValue.allocate, RValue.isNil_addr, RValue.type?,
    Option.some_bind, hm, if_true, ne_eq, not_true_eq_false, if_false, and_false,
    Bool.false_eq_true]

/-- A settable value that is neither a pointer nor an interface, and whose pointer type has
no custom decoder, is where `indirect` stops; a named type takes a round through its
address first. -/
theorem indirect_plain {t : GoType} (hp : env.kind t ≠ .ptr) (hi : env.kind t ≠ .interface)
    (hm : env.methodOf (.ptr t) = none) (p : List Step) (dn : Bool) (n : Nat) (r : Value) :
    indirect env (n + 2) (.loc t p true) dn r = some (.ok ⟨none, .loc t p true, r⟩) := by
  simp only [indirect]
  split_ifs
  · rw [indirectLoop_addr env hm]
    exact indirectLoop_stop env hp hi dn _ n p true false r
  · exact indirectLoop_stop env hp hi dn _ (n + 1) p true false r

/-- A settable value of a defined type whose pointer type has a custom decoder: `indirect`
returns the decoder, its receiver, and the zero `reflect.Value`, even when it is asked to
stop at the last pointer. -/
theorem indirect_unmarshaler {N : String} {u : Unmarshaler}
    (hu : (env.decl N).unmarshaler = some u) (p : List Step) (dn : Bool) (n : Nat)
    (r : Value) :
    indirect env (n + 1) (.loc (.named N) p true) dn r =
      some (.ok ⟨some (u, p), .invalid, r⟩) := by
  have hk : env.kind (.named N) ≠ .ptr := (env.no_methods N (by simp [hu])).1
  simp only [indirect, hk, ne_eq, not_false_eq_true, GoType.hasName, and_self, if_true]
  rw [indirectLoop]
  simp only [RValue.enterInterface_of_ne env r (.addr _ p) dn (by simp), RValue.kind_addr,
    RValue.elem_addr, RValue.canSet, RValue.allocate, RValue.isNil_addr, RValue.type?,
    Option.some_bind, TypeEnv.methodOf, hu, RValue.target, ne_eq, not_true_eq_false,
    if_false, and_false, Bool.false_eq_true]

/-- Under an optional directive the loop stops at a nil pointer. -/
theorem indirectLoop_nil_optional {t : GoType} (ht : env.kind t = .ptr) {r : Value}
    {p : List Step} (hr : r.get p = some (.ptr none)) (v0 : RValue) (n : Nat) (h : Bool) :
    indirectLoop env true v0 (n + 1) (.loc t p true) h r =
      some (.ok ⟨none, .loc t p true, r⟩) := by
  have helem : (RValue.loc t p true).elem env r = .invalid := by
    simp only [RValue.elem, hr]; split <;> simp_all
  rw [indirectLoop]
  simp only [RValue.enterInterface_of_ne env r (.loc t p true) true (by simp [ht]),
    RValue.kind_loc, ht, helem, RValue.kind, RValue.canSet, ne_eq, not_true_eq_false,
    if_false, reduceCtorEq, not_false_eq_true, and_self, if_true]

/-- Writing back what a path holds changes nothing. -/
theorem Value.set_get_self : ∀ (p : List Step) (r z : Value), r.get p = some z → r.set p z = r
  | [], _, _, h => by cases h; rfl
  | .deref :: p, .ptr (some x), z, h => by
    simp only [Value.set_deref, Value.set_get_self p x z h]
  | .dyn :: p, .iface (some (_, x)), z, h => by
    simp only [Value.set_dyn, Value.set_get_self p x z h]
  | .deref :: _, .bool _, _, h | .deref :: _, .int _, _, h | .deref :: _, .uint _, _, h
  | .deref :: _, .float _, _, h | .deref :: _, .string _, _, h | .deref :: _, .array _, _, h
  | .deref :: _, .slice _, _, h | .deref :: _, .ptr none, _, h | .deref :: _, .struct _, _, h
  | .deref :: _, .iface _, _, h | .deref :: _, .other _, _, h
  | .dyn :: _, .bool _, _, h | .dyn :: _, .int _, _, h | .dyn :: _, .uint _, _, h
  | .dyn :: _, .float _, _, h | .dyn :: _, .string _, _, h | .dyn :: _, .array _, _, h
  | .dyn :: _, .slice _, _, h | .dyn :: _, .ptr _, _, h | .dyn :: _, .struct _, _, h
  | .dyn :: _, .iface none, _, h | .dyn :: _, .other _, _, h => by cases h

/-- A second write at a path replaces the first. -/
theorem Value.set_set (p : List Step) : ∀ (r y z : Value), (r.set p y).set p z = r.set p z := by
  induction p with
  | nil => intro _ _ _; rfl
  | cons s p ih =>
    rintro (_ | _ | _ | _ | _ | _ | _ | (_ | x) | _ | (_ | ⟨_, x⟩) | _) y z <;> cases s <;>
      simp only [Value.set, ih]

/-- `v.Set(reflect.New(v.Type().Elem()))` at a settable pointer: a nil one gets a fresh
zero target, and a non-nil one is left as it is. -/
theorem RValue.allocate_ptr {t et : GoType} (ht : env.underlying t = .ptr et) {r : Value}
    {p : List Step} {ov : Option Value} (hr : r.get p = some (.ptr ov)) {s : Bool}
    (hs : ov = none → s = true) :
    (RValue.loc t p s).allocate env r = .ok (r.set p (.ptr (some (ov.getD (env.zero et))))) := by
  have hel : env.elem t = et := by simp [TypeEnv.elem, ht]
  cases ov with
  | none => simp [RValue.allocate, RValue.isNil, hr, hs rfl, hel]
  | some y => simp [RValue.allocate, RValue.isNil, hr, Value.set_get_self _ _ _ hr]

/-- One round of the loop down a pointer with no custom decoder: a nil pointer gets a fresh
zero target, and the loop goes on at the target. -/
theorem indirectLoop_deref {t et : GoType} (ht : env.underlying t = .ptr et)
    (hm : env.methodOf t = none) {r : Value} {p : List Step} {ov : Option Value}
    (hr : r.get p = some (.ptr ov)) {s : Bool} (hs : ov = none → s = true) (v0 : RValue)
    (n : Nat) :
    indirectLoop env false v0 (n + 1) (.loc t p s) false r =
      indirectLoop env false v0 n (.loc et (p ++ [.deref]) true) false
        (r.set p (.ptr (some (ov.getD (env.zero et))))) := by
  have hk : env.kind t = .ptr := by simp [TypeEnv.kind, ht, GoType.kind]
  have hr' : (r.set p (.ptr (some (ov.getD (env.zero et))))).get p =
      some (.ptr (some (ov.getD (env.zero et)))) := Value.get_set_self p r _ (by simp [hr])
  rw [indirectLoop]
  simp only [RValue.enterInterface_of_ne env r (.loc t p s) false (by simp [hk]),
    RValue.kind_loc, hk, ne_eq, not_true_eq_false, if_false, Bool.false_eq_true, false_and,
    and_false, RValue.allocate_ptr env ht hr hs, RValue.type?, Option.some_bind, hm,
    RValue.elem_ptr env _ ht hr']

/-- One round of the loop at a pointer whose type has a custom decoder: a nil pointer gets
a fresh zero target, and the decoder is handed out with the target's path. -/
theorem indirectLoop_method {t et : GoType} (ht : env.underlying t = .ptr et)
    {u : Unmarshaler} (hm : env.methodOf t = some u) {r : Value} {p : List Step}
    {ov : Option Value} (hr : r.get p = some (.ptr ov)) {s : Bool} (hs : ov = none → s = true)
    (v0 : RValue) (n : Nat) :
    indirectLoop env false v0 (n + 1) (.loc t p s) false r =
      some (.ok ⟨some (u, p ++ [.deref]), .invalid,
        r.set p (.ptr (some (ov.getD (env.zero et))))⟩) := by
  have hk : env.kind t = .ptr := by simp [TypeEnv.kind, ht, GoType.kind]
  rw [indirectLoop]
  simp only [RValue.enterInterface_of_ne env r (.loc t p s) false (by simp [hk]),
    RValue.kind_loc, hk, ne_eq, not_true_eq_false, if_false, Bool.false_eq_true, false_and,
    and_false, RValue.allocate_ptr env ht hr hs, RValue.type?, Option.some_bind, hm,
    RValue.target]

/-- The only custom decoders `indirect`'s loop hands out are methods of types. -/
theorem indirectLoop_unmarshaler {dn : Bool} {v0 : RValue} {u : Unmarshaler} {p : List Step}
    {rv : RValue} {r' : Value} : ∀ (n : Nat) (v : RValue) (hA : Bool) (r : Value),
    indirectLoop env dn v0 n v hA r = some (.ok ⟨some (u, p), rv, r'⟩) →
      ∃ t, env.methodOf t = some u
  | 0, _, _, _, h => by cases h
  | n + 1, v, hA, r, h => by
    simp only [indirectLoop] at h
    split at h
    · exact indirectLoop_unmarshaler n _ _ _ h
    · split_ifs at h
      · cases h
      · cases h
      all_goals
        split at h
        · cases h
        · split at h
          · rename_i u' hu'
            cases h
            obtain ⟨t, -, ht⟩ := Option.bind_eq_some.mp hu'
            exact ⟨t, ht⟩
          · exact indirectLoop_unmarshaler n _ _ _ h

theorem indirect_unmarshaler_mem {fuel : Nat} {v : RValue} {dn : Bool} {r : Value}
    {u : Unmarshaler} {p : List Step} {rv : RValue} {r' : Value}
    (h : indirect env fuel v dn r = some (.ok ⟨some (u, p), rv, r'⟩)) :
    ∃ t, env.methodOf t = some u := by
  unfold indirect at h
  split at h
  · cases h
  · split_ifs at h <;> exact indirectLoop_unmarshaler env _ _ _ _ h
  · exact indirectLoop_unmarshaler env _ _ _ _ h

end BinDecoder
