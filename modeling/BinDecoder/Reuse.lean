import BinDecoder.Calls

/-!
# Decoding into a destination that already holds a value

`Decode(&x)` does not start from a fresh value: it works on `x` as it finds it.
`indirect` follows the pointers already there and allocates only the nil ones, it enters
an interface that holds a pointer, a custom decoder is handed its receiver as it is, and
`decodeStruct` leaves a skipped or unexported field, and a `binary_extension` field once
the buffer is exhausted, untouched.  Everything else is overwritten.

`decode_agree`: these are the only ways the old contents of the destination matter.  Two
destinations that agree on them (`Agree`) give the same outcome on every session: the
same decoded value, the same cursor, the same error or panic.  A nil pointer agrees with
a pointer to a value that looks like a fresh zero value (`SeesZero`), since that is what
a decode allocates there, except where the element is itself a pointer: under an
optional directive `indirect` stops at the last pointer of a chain, so that a zero
presence byte leaves a nil `**T` nil but a pointer to a nil `*T` as it was.

The proof runs one decode in the two destinations side by side.  `indirect`'s loop keeps
the two cursors equal, and the two destinations agreeing at the cursor and equal
everywhere else (`RValue.Agree`, `indirectLoop_agree`); the dispatch after it then reads
the same bytes and writes the same value at the same place.
-/

namespace BinDecoder

/-- A field a decode may leave as it found it: a skipped or unexported field, or a
`binary_extension` field, which is skipped once the buffer is exhausted. -/
def Field.keptWhole (f : Field GoType) : Bool :=
  f.tag.skip || !f.exported || f.tag.binaryExtension

/-- A decode at `t` depends on the whole old value: the custom decoder of `*t` is handed
it, and the dynamic value of an interface steers `indirect`. -/
def TypeEnv.seesWhole (env : TypeEnv) (t : GoType) : Bool :=
  (env.methodOf (.ptr t)).isSome || decide (env.kind t = .interface)

/-- The kinds at which a decode never looks at the old value: it overwrites it (a number, a
string, a slice, which is made anew) or rejects the kind.  Pointers, arrays and structs
are looked into. -/
def GoType.overwritesOld : GoType → Bool
  | .ptr _ | .array _ _ | .struct _ => false
  | _ => true

section

variable (env : TypeEnv)

mutual
/-- `z` looks, to a decode at `t`, like the zero value of `t`. -/
inductive SeesZero : GoType → Value → Prop where
  /-- The zero value itself. -/
  | zero (t : GoType) : SeesZero t (env.zero t)
  /-- A pointer to what looks like a zero value, which is what a decode allocates in place
  of a nil pointer, unless the target is a pointer too. -/
  | ptr {t et : GoType} {w : Value} : env.underlying t = .ptr et → env.kind et ≠ .ptr →
      SeesZero et w → SeesZero t (.ptr (some w))
  | array {t et : GoType} {xs : List Value} : env.seesWhole t = false →
      env.underlying t = .array xs.length et → SeesZeroElems et xs → SeesZero t (.array xs)
  | struct {t : GoType} {fs : List (Field GoType)} {vs : List Value} :
      env.seesWhole t = false → env.underlying t = .struct fs → SeesZeroFields fs vs →
      SeesZero t (.struct vs)
  | overwritten {t : GoType} {z : Value} : env.seesWhole t = false →
      (env.underlying t).overwritesOld = true → SeesZero t z

/-- `SeesZero` of every element. -/
inductive SeesZeroElems : GoType → List Value → Prop where
  | nil (et : GoType) : SeesZeroElems et []
  | cons {et : GoType} {x : Value} {xs : List Value} : SeesZero et x → SeesZeroElems et xs →
      SeesZeroElems et (x :: xs)

/-- `SeesZero` of every field, a field kept whole holding its zero value. -/
inductive SeesZeroFields : List (Field GoType) → List Value → Prop where
  | nil : SeesZeroFields [] []
  | whole {f : Field GoType} {fs : List (Field GoType)} {vs : List Value} : f.keptWhole = true →
      SeesZeroFields fs vs → SeesZeroFields (f :: fs) (env.zero f.type :: vs)
  | cons {f : Field GoType} {fs : List (Field GoType)} {v : Value} {vs : List Value} :
      f.keptWhole = false → SeesZero f.type v → SeesZeroFields fs vs →
      SeesZeroFields (f :: fs) (v :: vs)
end

mutual
/-- `x` and `x'` cannot be told apart by a decode at `t`: they differ only where a decode
overwrites what it finds. -/
inductive Agree : GoType → Value → Value → Prop where
  | refl (t : GoType) (x : Value) : Agree t x x
  /-- A nil pointer, and a pointer to what looks like the zero value a decode allocates
  there. -/
  | nil_some {t et : GoType} {w' : Value} : env.underlying t = .ptr et → env.kind et ≠ .ptr →
      SeesZero env et w' → Agree t (.ptr none) (.ptr (some w'))
  | some_nil {t et : GoType} {w : Value} : env.underlying t = .ptr et → env.kind et ≠ .ptr →
      SeesZero env et w → Agree t (.ptr (some w)) (.ptr none)
  | ptr {t et : GoType} {w w' : Value} : env.underlying t = .ptr et → Agree et w w' →
      Agree t (.ptr (some w)) (.ptr (some w'))
  | array {t et : GoType} {n : Nat} {xs xs' : List Value} : env.seesWhole t = false →
      env.underlying t = .array n et → AgreeElems et xs xs' → Agree t (.array xs) (.array xs')
  | struct {t : GoType} {fs : List (Field GoType)} {vs vs' : List Value} :
      env.seesWhole t = false → env.underlying t = .struct fs → AgreeFields fs vs vs' →
      Agree t (.struct vs) (.struct vs')
  | overwritten {t : GoType} {x x' : Value} : env.seesWhole t = false →
      (env.underlying t).overwritesOld = true → Agree t x x'

/-- `Agree` of the elements, pairwise. -/
inductive AgreeElems : GoType → List Value → List Value → Prop where
  | nil (et : GoType) : AgreeElems et [] []
  | cons {et : GoType} {x x' : Value} {xs xs' : List Value} : Agree et x x' →
      AgreeElems et xs xs' → AgreeElems et (x :: xs) (x' :: xs')

/-- `Agree` of the fields, pairwise, a field kept whole holding the same value on both
sides; the values past the last field are not decoded and are the same. -/
inductive AgreeFields : List (Field GoType) → List Value → List Value → Prop where
  | rest (fs : List (Field GoType)) (vs : List Value) : AgreeFields fs vs vs
  | keep {f : Field GoType} {fs : List (Field GoType)} {v : Value} {vs vs' : List Value} :
      AgreeFields fs vs vs' → AgreeFields (f :: fs) (v :: vs) (v :: vs')
  | cons {f : Field GoType} {fs : List (Field GoType)} {v v' : Value} {vs vs' : List Value} :
      f.keptWhole = false → Agree f.type v v' → AgreeFields fs vs vs' →
      AgreeFields (f :: fs) (v :: vs) (v' :: vs')
end

/-! ## What the relations say at each kind -/

variable {env}

/-- A pointer type has no custom decoder and is not an interface. -/
theorem TypeEnv.seesWhole_of_ptr {t et : GoType} (ht : env.underlying t = .ptr et) :
    env.seesWhole t = false := by
  have hm : env.methodOf (.ptr t) = none := by
    cases t with
    | named n =>
      by_contra hne
      exact (env.no_methods n hne).1 (by rw [← TypeEnv.underlying_named, ht]; rfl)
    | _ => rfl
  simp [TypeEnv.seesWhole, hm, TypeEnv.kind, ht, GoType.kind]

theorem TypeEnv.zero_of_ptr {t et : GoType} (ht : env.underlying t = .ptr et) :
    env.zero t = .ptr none := by
  rw [← env.zero_underlying, ht]; rfl

theorem TypeEnv.zero_of_array {t et : GoType} {n : Nat} (ht : env.underlying t = .array n et) :
    env.zero t = .array (List.replicate n (env.zero et)) := by
  rw [← env.zero_underlying, ht]; rfl

theorem TypeEnv.zero_of_struct {t : GoType} {fs : List (Field GoType)}
    (ht : env.underlying t = .struct fs) : env.zero t = .struct (zeroFields env.namedZero fs) := by
  rw [← env.zero_underlying, ht]; rfl

/-- The custom decoder of `*t` or the interface `t` sees the whole value. -/
theorem Agree.of_seesWhole {t : GoType} {x x' : Value} (hw : env.seesWhole t = true)
    (h : Agree env t x x') : x = x' := by
  cases h with
  | refl => rfl
  | nil_some hu | some_nil hu | ptr hu => exact absurd hw (by simp [TypeEnv.seesWhole_of_ptr hu])
  | array hw' | struct hw' | overwritten hw' => exact absurd hw (by simp [hw'])

/-- At a pointer type: equal values, a nil pointer and a pointer to what looks like a zero
value that is not a pointer, or two pointers to agreeing values. -/
theorem Agree.ptr_cases {t et : GoType} (ht : env.underlying t = .ptr et) {x x' : Value}
    (h : Agree env t x x') : x = x' ∨
      (∃ w', x = .ptr none ∧ x' = .ptr (some w') ∧ env.kind et ≠ .ptr ∧ SeesZero env et w') ∨
      (∃ w, x = .ptr (some w) ∧ x' = .ptr none ∧ env.kind et ≠ .ptr ∧ SeesZero env et w) ∨
      (∃ w w', x = .ptr (some w) ∧ x' = .ptr (some w') ∧ Agree env et w w') := by
  cases h with
  | refl => exact .inl rfl
  | nil_some hu hk hw => cases ht.symm.trans hu; exact .inr (.inl ⟨_, rfl, rfl, hk, hw⟩)
  | some_nil hu hk hw => cases ht.symm.trans hu; exact .inr (.inr (.inl ⟨_, rfl, rfl, hk, hw⟩))
  | ptr hu hw => cases ht.symm.trans hu; exact .inr (.inr (.inr ⟨_, _, rfl, rfl, hw⟩))
  | array _ hu | struct _ hu => cases ht.symm.trans hu
  | overwritten _ ho => rw [ht] at ho; cases ho

/-- At an array type: equal values, or two arrays of agreeing elements. -/
theorem Agree.array_cases {t et : GoType} {n : Nat} (ht : env.underlying t = .array n et)
    {x x' : Value} (h : Agree env t x x') :
    x = x' ∨ ∃ xs xs', x = .array xs ∧ x' = .array xs' ∧ AgreeElems env et xs xs' := by
  cases h with
  | refl => exact .inl rfl
  | nil_some hu | some_nil hu | ptr hu | struct _ hu => cases ht.symm.trans hu
  | array _ hu hxs => cases ht.symm.trans hu; exact .inr ⟨_, _, rfl, rfl, hxs⟩
  | overwritten _ ho => rw [ht] at ho; cases ho

/-- At a struct type: equal values, or two structs of agreeing fields. -/
theorem Agree.struct_cases {t : GoType} {fs : List (Field GoType)}
    (ht : env.underlying t = .struct fs) {x x' : Value} (h : Agree env t x x') :
    x = x' ∨ ∃ vs vs', x = .struct vs ∧ x' = .struct vs' ∧ AgreeFields env fs vs vs' := by
  cases h with
  | refl => exact .inl rfl
  | nil_some hu | some_nil hu | ptr hu | array _ hu => cases ht.symm.trans hu
  | struct _ hu hvs => cases ht.symm.trans hu; exact .inr ⟨_, _, rfl, rfl, hvs⟩
  | overwritten _ ho => rw [ht] at ho; cases ho

/-! ## What looks like a zero value agrees with it -/

mutual
/-- A value that looks like a zero value agrees with it, both ways round. -/
theorem SeesZero.agree_zero : ∀ {t : GoType} {z : Value}, SeesZero env t z →
    Agree env t (env.zero t) z ∧ Agree env t z (env.zero t)
  | _, _, .zero t => ⟨.refl _ _, .refl _ _⟩
  | _, _, .ptr hu hk hw => by
    rw [TypeEnv.zero_of_ptr hu]; exact ⟨.nil_some hu hk hw, .some_nil hu hk hw⟩
  | _, _, .array hw hu hxs => by
    have h := SeesZeroElems.agree_zero hxs
    rw [TypeEnv.zero_of_array hu]; exact ⟨.array hw hu h.1, .array hw hu h.2⟩
  | _, _, .struct hw hu hvs => by
    have h := SeesZeroFields.agree_zero hvs
    rw [TypeEnv.zero_of_struct hu]; exact ⟨.struct hw hu h.1, .struct hw hu h.2⟩
  | _, _, .overwritten hw ho => ⟨.overwritten hw ho, .overwritten hw ho⟩

/-- `SeesZero.agree_zero` of every element. -/
theorem SeesZeroElems.agree_zero : ∀ {et : GoType} {xs : List Value}, SeesZeroElems env et xs →
    AgreeElems env et (List.replicate xs.length (env.zero et)) xs ∧
      AgreeElems env et xs (List.replicate xs.length (env.zero et))
  | _, _, .nil _ => ⟨.nil _, .nil _⟩
  | _, _, .cons hx hxs =>
    have hx := SeesZero.agree_zero hx
    have h := SeesZeroElems.agree_zero hxs
    ⟨.cons hx.1 h.1, .cons hx.2 h.2⟩

/-- `SeesZero.agree_zero` of every field. -/
theorem SeesZeroFields.agree_zero : ∀ {fs : List (Field GoType)} {vs : List Value},
    SeesZeroFields env fs vs →
      AgreeFields env fs (zeroFields env.namedZero fs) vs ∧
        AgreeFields env fs vs (zeroFields env.namedZero fs)
  | _, _, .nil => ⟨.rest _ _, .rest _ _⟩
  | _, _, .whole _ h =>
    have h := SeesZeroFields.agree_zero h
    ⟨.keep h.1, .keep h.2⟩
  | _, _, .cons hk hv h =>
    have hv := SeesZero.agree_zero hv
    have h := SeesZeroFields.agree_zero h
    ⟨.cons hk hv.1 h.1, .cons hk hv.2 h.2⟩
end

/-- A value that looks like the zero value of a type that sees the whole value is it. -/
theorem SeesZero.eq_zero {t : GoType} {z : Value} (hw : env.seesWhole t = true)
    (h : SeesZero env t z) : z = env.zero t :=
  ((SeesZero.agree_zero h).1.of_seesWhole hw).symm

/-- The target of a pointer type with a custom decoder sees the whole value. -/
theorem TypeEnv.seesWhole_of_methodOf {t et : GoType} (ht : env.underlying t = .ptr et)
    {u : Unmarshaler} (hm : env.methodOf t = some u) : env.seesWhole et = true := by
  cases t with
  | ptr x => cases ht; simp [TypeEnv.seesWhole, hm]
  | named => cases hm
  | _ => cases ht

end

/-! ## One round of `indirect`'s loop -/

section Loop

variable (env : TypeEnv) {dn : Bool} {v0 : RValue}

/-- `v.Elem().Kind() != reflect.Ptr` at a pointer: it is nil, or its target is not a
pointer. -/
theorem RValue.elem_kind_ne_ptr {t et : GoType} (ht : env.underlying t = .ptr et) {r : Value}
    {p : List Step} {ov : Option Value} (hr : r.get p = some (.ptr ov)) (s : Bool) :
    ((RValue.loc t p s).elem env r).kind env ≠ .ptr ↔ ov.isNone = true ∨ env.kind et ≠ .ptr := by
  cases ov with
  | none =>
    have : (RValue.loc t p s).elem env r = .invalid := by
      simp only [RValue.elem, hr]; split <;> simp_all
    simp [this, RValue.kind]
  | some y => simp [RValue.elem_ptr env r ht hr]

/-- A round at a pointer where the loop breaks: under `decodingNull`, a settable pointer
whose target is missing or not a pointer is where `indirect` stops. -/
theorem indirectLoop_ptr_stop {t et : GoType} (ht : env.underlying t = .ptr et) {r : Value}
    {p : List Step} {s : Bool} (hb : ((RValue.loc t p s).elem env r).kind env ≠ .ptr ∧
      dn = true ∧ s = true) (n : Nat) (h : Bool) :
    indirectLoop env dn v0 (n + 1) (.loc t p s) h r = some (.ok ⟨none, .loc t p s, r⟩) := by
  have hk : env.kind t = .ptr := by rw [TypeEnv.kind, ht]; rfl
  have hb' : ((RValue.loc t p s).elem env r).kind env ≠ .ptr ∧ dn = true ∧
      (RValue.loc t p s).canSet = true := hb
  rw [indirectLoop, RValue.enterInterface_of_ne env r _ dn (by simp [hk]),
    if_neg (by simp [hk]), if_pos hb']

/-- A round at a pointer where the loop goes on: the pointer is allocated if it is nil,
and either its type's custom decoder is handed out with the target's path, or the loop
goes down to the target (or back to the value it started from). -/
theorem indirectLoop_ptr_go {t et : GoType} (ht : env.underlying t = .ptr et) {r : Value}
    {p : List Step} {ov : Option Value} (hr : r.get p = some (.ptr ov)) {s : Bool}
    (hs : ov = none → s = true) (hb : ¬ (((RValue.loc t p s).elem env r).kind env ≠ .ptr ∧
      dn = true ∧ s = true)) (n : Nat) (h : Bool) :
    indirectLoop env dn v0 (n + 1) (.loc t p s) h r =
      match env.methodOf t with
      | some u => some (.ok ⟨some (u, p ++ [.deref]), .invalid,
          r.set p (.ptr (some (ov.getD (env.zero et))))⟩)
      | none =>
        if h then indirectLoop env dn v0 n v0 false (r.set p (.ptr (some (ov.getD (env.zero et)))))
        else indirectLoop env dn v0 n (.loc et (p ++ [.deref]) true) false
          (r.set p (.ptr (some (ov.getD (env.zero et))))) := by
  have hk : env.kind t = .ptr := by rw [TypeEnv.kind, ht]; rfl
  have hr' : (r.set p (.ptr (some (ov.getD (env.zero et))))).get p =
      some (.ptr (some (ov.getD (env.zero et)))) := Value.get_set_self p r _ (by simp [hr])
  have hb' : ¬ (((RValue.loc t p s).elem env r).kind env ≠ .ptr ∧ dn = true ∧
      (RValue.loc t p s).canSet = true) := hb
  rw [indirectLoop, RValue.enterInterface_of_ne env r _ dn (by simp [hk]),
    if_neg (by simp [hk]), if_neg hb', RValue.allocate_ptr env ht hr hs]
  cases hm : env.methodOf t <;>
    simp only [RValue.type?, Option.some_bind, RValue.target, RValue.elem_ptr env _ ht hr', hm]

/-- A round at the address of a value: the method set of `*t` is looked up, and the loop
goes back to the value itself. -/
theorem indirectLoop_addr_round (t : GoType) (p : List Step) (n : Nat) (h : Bool) (r : Value) :
    indirectLoop env dn v0 (n + 1) (.addr t p) h r =
      match env.methodOf (.ptr t) with
      | some u => some (.ok ⟨some (u, p), .invalid, r⟩)
      | none =>
        if h then indirectLoop env dn v0 n v0 false r
        else indirectLoop env dn v0 n (.loc t p true) false r := by
  rw [indirectLoop]
  cases hm : env.methodOf (.ptr t) <;>
    simp only [RValue.enterInterface_of_ne env r (.addr t p) dn (by simp), RValue.kind_addr,
      RValue.elem_addr, RValue.canSet, RValue.allocate, RValue.isNil_addr, RValue.type?,
      Option.some_bind, RValue.target, ne_eq, not_true_eq_false, if_false, and_false,
      Bool.false_eq_true, hm]

end Loop

/-! ## `indirect` in two agreeing destinations -/

section Indirect

variable (env : TypeEnv)

/-- `r` and `r'` hold agreeing values at `p`, at type `t`, and are equal everywhere
else. -/
def AgreeAt (t : GoType) (p : List Step) (r r' : Value) : Prop :=
  ∃ a a', r.get p = some a ∧ r'.get p = some a' ∧ Agree env t a a' ∧
    ∀ z, r.set p z = r'.set p z

/-- A cursor of `indirect` in two destinations: they agree where it stands, and a cursor
that is not settable is nil in both or in neither, since it cannot be allocated. -/
def RValue.Agree : RValue → Value → Value → Prop
  | .loc t p s, r, r' => AgreeAt env t p r r' ∧
      (s = false → (r.get p = some (.ptr none) ↔ r'.get p = some (.ptr none)))
  | .addr t p, r, r' => AgreeAt env t p r r'
  | .invalid, _, _ => False

/-- What `indirect` returns in two destinations: the same custom decoder and the same
cursor, and the same receiver for the decoder, or agreeing destinations at the cursor. -/
def Indirection.Agree (i i' : Indirection) : Prop :=
  i.unmarshaler = i'.unmarshaler ∧ i.value = i'.value ∧
    match i.unmarshaler with
    | some (_, q) => i.value = .invalid ∧ i.root.get q = i'.root.get q ∧
        ∀ z, i.root.set q z = i'.root.set q z
    | none => i.value.Agree env i.root i'.root

/-- Two results of `indirect`: the same, or agreeing indirections. -/
def IndirectAgree (o o' : Option (Except Panic Indirection)) : Prop :=
  o = o' ∨ ∃ i i', o = some (.ok i) ∧ o' = some (.ok i') ∧ i.Agree env i'

variable {env}

/-- Agreeing destinations with the same value at `p` are the same. -/
theorem AgreeAt.eq {p : List Step} {r r' a : Value} (hr : r.get p = some a)
    (hr' : r'.get p = some a) (hoff : ∀ z, r.set p z = r'.set p z) : r = r' := by
  rw [← Value.set_get_self p r a hr, hoff, Value.set_get_self p r' a hr']

/-- Two pointers to agreeing values: the destinations agree at the targets. -/
theorem AgreeAt.deref {et : GoType} {p : List Step} {r r' b b' : Value}
    (hr : r.get p = some (.ptr (some b))) (hr' : r'.get p = some (.ptr (some b')))
    (hoff : ∀ z, r.set p z = r'.set p z) (h : Agree env et b b') :
    AgreeAt env et (p ++ [.deref]) r r' :=
  ⟨b, b', by rw [Value.get_append, hr]; rfl, by rw [Value.get_append, hr']; rfl, h, fun z => by
    rw [Value.set_append p _ r _ z hr, Value.set_append p _ r' _ z hr']; exact hoff _⟩

/-- A nil pointer allocated in one destination: the destinations still differ only at it. -/
theorem AgreeAt.allocate {p : List Step} {r r' : Value} (hoff : ∀ z, r.set p z = r'.set p z)
    (y : Value) : ∀ z, (r.set p y).set p z = r'.set p z := fun z => by
  rw [Value.set_set, hoff]

mutual
theorem Agree.symm : ∀ {t : GoType} {x x' : Value}, Agree env t x x' → Agree env t x' x
  | _, _, _, .refl t x => .refl t x
  | _, _, _, .nil_some hu hk hw => .some_nil hu hk hw
  | _, _, _, .some_nil hu hk hw => .nil_some hu hk hw
  | _, _, _, .ptr hu h => .ptr hu (Agree.symm h)
  | _, _, _, .array hw hu h => .array hw hu (AgreeElems.symm h)
  | _, _, _, .struct hw hu h => .struct hw hu (AgreeFields.symm h)
  | _, _, _, .overwritten hw ho => .overwritten hw ho

theorem AgreeElems.symm : ∀ {et : GoType} {xs xs' : List Value},
    AgreeElems env et xs xs' → AgreeElems env et xs' xs
  | _, _, _, .nil et => .nil et
  | _, _, _, .cons h hs => .cons (Agree.symm h) (AgreeElems.symm hs)

theorem AgreeFields.symm : ∀ {fs : List (Field GoType)} {vs vs' : List Value},
    AgreeFields env fs vs vs' → AgreeFields env fs vs' vs
  | _, _, _, .rest fs vs => .rest fs vs
  | _, _, _, .keep h => .keep (AgreeFields.symm h)
  | _, _, _, .cons hk h hs => .cons hk (Agree.symm h) (AgreeFields.symm hs)
end

theorem AgreeAt.symm {t : GoType} {p : List Step} {r r' : Value} :
    AgreeAt env t p r r' → AgreeAt env t p r' r
  | ⟨a, a', ha, ha', h, hoff⟩ => ⟨a', a, ha', ha, h.symm, fun z => (hoff z).symm⟩

theorem RValue.Agree.symm : ∀ {v : RValue} {r r' : Value}, v.Agree env r r' → v.Agree env r' r
  | .loc _ _ _, _, _, ⟨h, hnil⟩ => ⟨h.symm, fun hs => (hnil hs).symm⟩
  | .addr _ _, _, _, h => AgreeAt.symm h

theorem Indirection.Agree.symm {i i' : Indirection} (h : i.Agree env i') : i'.Agree env i := by
  obtain ⟨u, v, r⟩ := i
  obtain ⟨u', v', r'⟩ := i'
  obtain ⟨rfl, rfl, h⟩ := h
  refine ⟨rfl, rfl, ?_⟩
  rcases u with _ | ⟨_, q⟩
  · exact RValue.Agree.symm h
  · exact ⟨h.1, h.2.1.symm, fun z => (h.2.2 z).symm⟩

theorem IndirectAgree.symm {o o' : Option (Except Panic Indirection)} :
    IndirectAgree env o o' → IndirectAgree env o' o
  | .inl h => .inl h.symm
  | .inr ⟨_, _, h, h', hi⟩ => .inr ⟨_, _, h', h, hi.symm⟩

/-- The round of the loop at a pointer that is nil in the first destination and points to
what looks like a zero value in the second: either both stop there, or the first
allocates the zero value and both go on at the target, or hand out the same receiver. -/
theorem indirectLoop_agree_nil {dn : Bool} {v0 : RValue} {n : Nat} {t et : GoType}
    {p : List Step} {s : Bool} {r r' w' : Value} (hu : env.underlying t = .ptr et)
    (hk : env.kind et ≠ .ptr) (hw : SeesZero env et w') (ha : r.get p = some (.ptr none))
    (ha' : r'.get p = some (.ptr (some w'))) (hoff : ∀ z, r.set p z = r'.set p z)
    (hnil : s = false → (r.get p = some (.ptr none) ↔ r'.get p = some (.ptr none)))
    (ih : ∀ r r', AgreeAt env et (p ++ [.deref]) r r' →
      IndirectAgree env (indirectLoop env dn v0 n (.loc et (p ++ [.deref]) true) false r)
        (indirectLoop env dn v0 n (.loc et (p ++ [.deref]) true) false r')) :
    IndirectAgree env (indirectLoop env dn v0 (n + 1) (.loc t p s) false r)
      (indirectLoop env dn v0 (n + 1) (.loc t p s) false r') := by
  have hb := RValue.elem_kind_ne_ptr env hu ha s
  have hb' := RValue.elem_kind_ne_ptr env hu ha' s
  by_cases hds : dn = true ∧ s = true
  · rw [indirectLoop_ptr_stop env hu ⟨hb.2 (.inl rfl), hds⟩,
      indirectLoop_ptr_stop env hu ⟨hb'.2 (.inr hk), hds⟩]
    exact .inr ⟨_, _, rfl, rfl, rfl, rfl, ⟨_, _, ha, ha', .nil_some hu hk hw, hoff⟩, hnil⟩
  have hs : s = true := by
    by_contra hs
    have h := (hnil (by simpa using hs)).1 ha
    rw [ha'] at h; cases h
  rw [indirectLoop_ptr_go env hu ha (fun _ => hs) (fun h => hds h.2),
    indirectLoop_ptr_go env hu ha' nofun (fun h => hds h.2)]
  simp only [Option.getD_none, Option.getD_some, Value.set_get_self p r' _ ha']
  have hr : (r.set p (.ptr (some (env.zero et)))).get p = some (.ptr (some (env.zero et))) :=
    Value.get_set_self p r _ (by simp [ha])
  have hd := AgreeAt.deref hr ha' (AgreeAt.allocate hoff _) (SeesZero.agree_zero hw).1
  cases hm : env.methodOf t with
  | some u =>
    have hz := hw.eq_zero (TypeEnv.seesWhole_of_methodOf hu hm)
    refine .inr ⟨_, _, rfl, rfl, rfl, rfl, rfl, ?_, hd.choose_spec.choose_spec.2.2.2⟩
    simp only [Value.get_append, hr, ha', hz]
  | none => exact ih _ _ hd

/-- `indirect`'s loop in two agreeing destinations: the same outcome, or the same cursor
with the destinations still agreeing. -/
theorem indirectLoop_agree (dn : Bool) (v0 : RValue) :
    ∀ (n : Nat) (v : RValue) (h : Bool) (r r' : Value), v.Agree env r r' →
      (h = true → ∃ t p, v = .addr t p ∧ v0 = .loc t p true) →
      IndirectAgree env (indirectLoop env dn v0 n v h r) (indirectLoop env dn v0 n v h r')
  | 0, _, _, _, _, _, _ => .inl rfl
  | _ + 1, .invalid, _, _, _, hv, _ => hv.elim
  | n + 1, .addr t p, h, r, r', ⟨a, a', ha, ha', hag, hoff⟩, hh => by
    rw [indirectLoop_addr_round, indirectLoop_addr_round]
    cases hm : env.methodOf (.ptr t) with
    | some u =>
      have he := hag.of_seesWhole (by simp [TypeEnv.seesWhole, hm])
      exact .inr ⟨_, _, rfl, rfl, rfl, rfl, rfl, by rw [ha, ha', he], hoff⟩
    | none =>
      have hv : (RValue.loc t p true).Agree env r r' := ⟨⟨a, a', ha, ha', hag, hoff⟩, nofun⟩
      cases h
      · exact indirectLoop_agree dn v0 n _ false r r' hv nofun
      · obtain ⟨_, _, he, rfl⟩ := hh rfl
        cases he
        exact indirectLoop_agree dn _ n _ false r r' hv nofun
  | n + 1, .loc t p s, h, r, r', ⟨⟨a, a', ha, ha', hag, hoff⟩, hnil⟩, hh => by
    have same : a = a' → IndirectAgree env (indirectLoop env dn v0 (n + 1) (.loc t p s) h r)
        (indirectLoop env dn v0 (n + 1) (.loc t p s) h r') := by
      rintro rfl; exact .inl (by rw [AgreeAt.eq ha ha' hoff])
    by_cases hi : env.kind t = .interface
    · exact same (hag.of_seesWhole (by simp [TypeEnv.seesWhole, hi]))
    by_cases hp : env.kind t = .ptr
    swap
    · rw [indirectLoop_stop env hp hi, indirectLoop_stop env hp hi]
      exact .inr ⟨_, _, rfl, rfl, rfl, rfl, ⟨a, a', ha, ha', hag, hoff⟩, hnil⟩
    obtain ⟨et, hu⟩ := env.underlying_of_kind_ptr hp
    obtain rfl : h = false := by
      cases h
      · rfl
      · obtain ⟨_, _, he, _⟩ := hh rfl; cases he
    have ih : ∀ r r', AgreeAt env et (p ++ [.deref]) r r' →
        IndirectAgree env (indirectLoop env dn v0 n (.loc et (p ++ [.deref]) true) false r)
          (indirectLoop env dn v0 n (.loc et (p ++ [.deref]) true) false r') :=
      fun r r' hd => indirectLoop_agree dn v0 n _ false r r' ⟨hd, nofun⟩ nofun
    rcases hag.ptr_cases hu with he | ⟨w', rfl, rfl, hk, hw⟩ | ⟨w, rfl, rfl, hk, hw⟩ |
      ⟨w, w', rfl, rfl, hw⟩
    · exact same he
    · exact indirectLoop_agree_nil hu hk hw ha ha' hoff hnil ih
    · exact (indirectLoop_agree_nil hu hk hw ha' ha (fun z => (hoff z).symm)
        (fun hs => (hnil hs).symm) fun r r' hd => (ih r' r hd.symm).symm).symm
    · -- two pointers to agreeing values: the same round in both
      have he : (RValue.loc t p s).elem env r = (RValue.loc t p s).elem env r' := by
        rw [RValue.elem_ptr env r hu ha, RValue.elem_ptr env r' hu ha']
      have hd := AgreeAt.deref ha ha' hoff hw
      by_cases hb : ((RValue.loc t p s).elem env r).kind env ≠ .ptr ∧ dn = true ∧ s = true
      · rw [indirectLoop_ptr_stop env hu hb, indirectLoop_ptr_stop env hu (he ▸ hb)]
        exact .inr ⟨_, _, rfl, rfl, rfl, rfl, ⟨_, _, ha, ha', .ptr hu hw, hoff⟩, hnil⟩
      rw [indirectLoop_ptr_go env hu ha nofun hb, indirectLoop_ptr_go env hu ha' nofun (he ▸ hb)]
      simp only [Option.getD_some, Value.set_get_self p r _ ha, Value.set_get_self p r' _ ha']
      cases hm : env.methodOf t with
      | some u =>
        have hz := hw.of_seesWhole (TypeEnv.seesWhole_of_methodOf hu hm)
        refine .inr ⟨_, _, rfl, rfl, rfl, rfl, rfl, ?_, hd.choose_spec.choose_spec.2.2.2⟩
        simp only [Value.get_append, ha, ha', hz]
      | none => exact ih _ _ hd

/-- `indirect` in two agreeing destinations. -/
theorem indirect_agree (n : Nat) (dn : Bool) :
    ∀ {v : RValue} {r r' : Value}, v.Agree env r r' →
      IndirectAgree env (indirect env n v dn r) (indirect env n v dn r')
  | .loc t p s, r, r', hv => by
    simp only [indirect]
    split_ifs with hn
    · exact indirectLoop_agree dn _ n _ true r r' hv.1 fun _ => ⟨t, p, rfl, by rw [hn.2.2]⟩
    · exact indirectLoop_agree dn _ n _ false r r' hv nofun
  | .addr _ _, r, r', hv => indirectLoop_agree dn _ n _ false r r' hv nofun

/-- The step after `indirect` gives the same outcome on two agreeing results of it. -/
theorem resolve_bind_agree {α : Type} {o o' : Option (Except Panic Indirection)}
    (h : IndirectAgree env o o') {F : Indirection → DecM α}
    (hF : ∀ i i', i.Agree env i' → F i = F i') : resolve o >>= F = resolve o' >>= F := by
  rcases h with rfl | ⟨i, i', rfl, rfl, hi⟩
  · rfl
  · funext dec
    exact congrFun (hF i i' hi) dec

end Indirect

/-! ## The dispatch after `indirect` -/

section Dispatch

variable {env : TypeEnv} (cu16 : CompactU16) {rec : DecodeFn}
  (hrec : ∀ t o x x', Agree env t x x' → rec t true o x = rec t true o x')
include hrec

theorem decodeElems_agree (et : GoType) (opt : FieldOption) :
    ∀ {xs xs' : List Value}, AgreeElems env et xs xs' →
      decodeElems rec et opt xs = decodeElems rec et opt xs'
  | _, _, .nil _ => rfl
  | _, _, .cons h hs => by
    simp only [decodeElems, hrec _ _ _ _ h, decodeElems_agree et opt hs]

theorem decodeFields_agree : ∀ {fs : List (Field GoType)} {vs vs' : List Value},
    AgreeFields env fs vs vs' → ∀ m seen,
      decodeFields env rec fs vs m seen = decodeFields env rec fs vs' m seen
  | _, _, _, .rest _ _ => fun _ _ => rfl
  | _, _, _, .keep h => fun _ _ => by simp only [decodeFields, decodeFields_agree h]
  | _, _, _, .cons hk h hs => fun _ _ => by
    simp only [Field.keptWhole, Bool.or_eq_false_iff, Bool.not_eq_false'] at hk
    simp only [decodeFields, hk.1.1, hk.1.2, hk.2, Bool.false_eq_true, if_false, Bool.not_false,
      Bool.true_and, Bool.or_false, Bool.not_true, DecM.pure_bind, hrec _ _ _ _ h,
      decodeFields_agree hs]

theorem decodeKind_agree (opt : FieldOption) {t : GoType} {x x' : Value}
    (h : Agree env t x x') : decodeKind env cu16 rec opt t x = decodeKind env cu16 rec opt t x' := by
  unfold decodeKind
  cases hu : env.underlying t
  case iface =>
    have hi : env.kind t = .interface := by rw [TypeEnv.kind, hu]; rfl
    rw [h.of_seesWhole (by simp [TypeEnv.seesWhole, hi])]
  case array =>
    rcases h.array_cases hu with rfl | ⟨xs, xs', rfl, rfl, hxs⟩
    · rfl
    · simp only [Value.elems, decodeElems_agree hrec _ _ hxs]
  case struct =>
    rcases h.struct_cases hu with rfl | ⟨vs, vs', rfl, rfl, hvs⟩
    · rfl
    · simp only [Value.fields, decodeStruct, decodeFields_agree hrec hvs]
  all_goals rfl

theorem decodeValue_agree (opt : FieldOption) {i i' : Indirection} (h : i.Agree env i') :
    decodeValue env cu16 rec opt i.unmarshaler i.value i.root =
      decodeValue env cu16 rec opt i'.unmarshaler i'.value i'.root := by
  obtain ⟨u, v, r⟩ := i
  obtain ⟨u', v', r'⟩ := i'
  obtain ⟨rfl, rfl, h⟩ := h
  rcases u with _ | ⟨um, q⟩
  · rcases v with _ | ⟨t, p, s⟩ | _
    · exact h.elim
    · obtain ⟨⟨a, a', ha, ha', hag, hoff⟩, -⟩ := h
      simp only [decodeValue, Value.at, ha, ha', Option.getD_some,
        decodeKind_agree cu16 hrec opt hag, funext hoff]
    · rfl
  · obtain ⟨-, hget, hoff⟩ := h
    simp only [decodeValue, Value.at, hget, funext hoff]

end Dispatch

/-! ## `decodeBin` and `Decode` -/

theorem setZero_agree {env : TypeEnv} {v : RValue} {r r' : Value} (h : v.Agree env r r') :
    setZero env v r = setZero env v r' := by
  rcases v with _ | ⟨t, p, _ | _⟩ | _
  · exact h.elim
  · rfl
  · simp only [setZero, h.1.choose_spec.choose_spec.2.2.2]
  · rfl

/-- `decodeBin` in two agreeing destinations gives the same outcome; a destination that is
not settable is nil in both or in neither. -/
theorem decodeBin_agree {env : TypeEnv} (cu16 : CompactU16) :
    ∀ (n : Nat) (t : GoType) (s : Bool) (o : Option FieldOption) {x x' : Value},
      (RValue.loc t [] s).Agree env x x' →
        decodeBin env cu16 n t s o x = decodeBin env cu16 n t s o x'
  | 0, _, _, _, _, _, _ => rfl
  | n + 1, t, s, o, x, x', h => by
    have ih : ∀ t o x x', Agree env t x x' →
        decodeBin env cu16 n t true o x = decodeBin env cu16 n t true o x' :=
      fun t o x x' h => decodeBin_agree cu16 n t true o ⟨⟨x, x', rfl, rfl, h, fun _ => rfl⟩, nofun⟩
    simp only [decodeBin]
    refine resolve_bind_agree (indirect_agree n _ h) fun ⟨u, v, r⟩ ⟨u', v', r'⟩ hi => ?_
    obtain ⟨rfl, rfl, hi'⟩ := hi
    split
    · congr 1
      funext b
      split
      · rcases u with _ | ⟨_, q⟩
        · exact setZero_agree hi'
        · rw [hi'.1]; rfl
      · rcases u with _ | ⟨_, q⟩
        · exact resolve_bind_agree (indirect_agree n false hi') fun i i' hi =>
            decodeValue_agree cu16 ih _ hi
        · rw [hi'.1]; rfl
    · exact decodeValue_agree cu16 ih _ ⟨rfl, rfl, hi'⟩

/-- Decoding into a destination that already holds a value gives the outcome of decoding
into any destination it agrees with: the old contents matter only through the fields a
decode keeps, the interfaces, the receivers of custom decoders, and which pointers to
pointers are nil. -/
theorem decode_agree {env : TypeEnv} (cu16 : CompactU16) (other : OtherDecoders) (fuel : Nat)
    (t : GoType) {x x' : Value} (h : Agree env t x x') {dec : Decoder}
    (hbin : dec.encoding = .bin) :
    decode env cu16 other fuel (some (.ptr t, .ptr (some x))) dec =
      decode env cu16 other fuel (some (.ptr t, .ptr (some x'))) dec := by
  have hk : env.kind (.ptr t) = .ptr := rfl
  simp only [decode_bin env cu16 other _ _ hbin, decodeWithOptionBin, hk, if_true]
  have hroot : (RValue.loc (.ptr t) [] false).Agree env (.ptr (some x)) (.ptr (some x')) :=
    ⟨⟨_, _, rfl, rfl, .ptr rfl h, fun _ => rfl⟩, fun _ => ⟨nofun, nofun⟩⟩
  exact congrFun (decodeBin_agree cu16 fuel (.ptr t) false none hroot) dec

/-- `struct { N uint8; P *uint8 }`, fresh, and as an earlier decode left it, on the bytes
`5 6`. -/
theorem decode_agree_reused :
    let t : GoType := .struct [⟨"N", true, ⟨"", false, .littleEndian, false, false⟩, .uint8⟩,
      ⟨"P", true, ⟨"", false, .littleEndian, false, false⟩, .ptr .uint8⟩]
    Agree customEnv t (.struct [.uint 0, .ptr none]) (.struct [.uint 9, .ptr (some (.uint 7))]) ∧
      (newBinDecoder [5, 6] (by decide)).encoding = .bin ∧
      decode customEnv .rejecting .failing 4 (some (.ptr t, .ptr (some (.struct [.uint 0, .ptr none]))))
          (newBinDecoder [5, 6] (by decide)) =
        decode customEnv .rejecting .failing 4
          (some (.ptr t, .ptr (some (.struct [.uint 9, .ptr (some (.uint 7))]))))
          (newBinDecoder [5, 6] (by decide)) := by
  intro t
  have h : Agree customEnv t (.struct [.uint 0, .ptr none])
      (.struct [.uint 9, .ptr (some (.uint 7))]) :=
    .struct rfl rfl (.cons rfl (.overwritten rfl rfl)
      (.cons rfl (.nil_some rfl nofun (.overwritten rfl rfl)) (.rest [] [])))
  exact ⟨h, rfl, decode_agree .rejecting .failing 4 t h rfl⟩

end BinDecoder
