import BinDecoder.Extension
import BinDecoder.Termination
import BinDecoder.Reuse

/-!
# Where `Decode` panics

`Decode` panics where the Go runtime or `reflect` does: at a slice expression out of
range, at `reflect.MakeSlice` with a negative length, at a method of the zero
`reflect.Value`, at a `Set` on an unaddressable value, and at the two `panic` calls of
`decodeStruct` (a field after a `binary_extension` one) and `sizeof` (a size field that
is not an integer).

`decode_panics_only_at_lengths`: in a program without custom decoders, on a type whose
`bin` tags are well formed (the `binary_extension` fields trailing, every `sizeof=` field
of an integer kind), `Decode` into a fresh value panics only at a length read from the
input: a string length past Go's `int` in `ReadByteSlice`'s slice expression, or a slice
count or signed size that is negative as an `int` in `reflect.MakeSlice`.  Both happen on
such types.

The proof follows a decode into a zero value.  `PanicsOnly P m` says that `m` panics only
with panics `P` allows; it is closed under the monad's operations, so each read proves it
once.  Every nested call of `decodeBin` is on the zero value of a type `Reach`able from
the destination's, where `indirect` only allocates and goes down pointer types
(`StopsAtZero`), the fields of a struct come in an order the tag check accepts, and a
size field decodes to an integer.
-/

namespace BinDecoder

open Decoder

/-! ## Computations with known panics -/

/-- From an in-bounds session of the Bin encoding, `m` panics only with a panic `P`
allows. -/
def PanicsOnly {α : Type} (P : Panic → Prop) (m : DecM α) : Prop :=
  ∀ dec, dec.InBounds → dec.encoding = .bin → ∀ p, m dec = .panic p → P p

namespace PanicsOnly

variable {α β : Type} {P : Panic → Prop}

theorem pure (a : α) : PanicsOnly P (Pure.pure a : DecM α) := fun _ _ _ _ => nofun

theorem fail (e : DecodeError) : PanicsOnly P (DecM.fail e : DecM α) := fun _ _ _ _ => nofun

theorem panic {p : Panic} (hp : P p) : PanicsOnly P (DecM.panic p : DecM α) :=
  fun _ _ _ _ h => by cases h; exact hp

theorem mono {Q : Panic → Prop} (hPQ : ∀ p, P p → Q p) {m : DecM α} (hm : PanicsOnly P m) :
    PanicsOnly Q m :=
  fun dec hin hbin p h => hPQ p (hm dec hin hbin p h)

theorem map (f : α → β) {m : DecM α} (hm : PanicsOnly P m) : PanicsOnly P (f <$> m) := by
  intro dec hin hbin p h
  rw [DecM.map_apply] at h
  cases hx : m dec <;> rw [hx] at h <;> cases h
  exact hm dec hin hbin _ hx

/-- The second step may use what the first returned. -/
theorem bind_ok {m : DecM α} {f : α → DecM β} (hm : PanicsOnly P m) (ha : Advances m)
    (hf : ∀ dec a d, m dec = .ok a d → PanicsOnly P (f a)) : PanicsOnly P (m >>= f) := by
  intro dec hin hbin p h
  rw [DecM.bind_apply] at h
  cases hx : m dec with
  | ok a d =>
    rw [hx, Outcome.bind_ok] at h
    obtain ⟨k, hk, rfl⟩ := ha dec hin d (by rw [hx]; rfl)
    exact hf dec a _ hx _ (inBounds_setPos_of_le hin hk) hbin p h
  | panic q => rw [hx, Outcome.bind_panic] at h; cases h; exact hm dec hin hbin _ hx
  | _ => rw [hx] at h; cases h

theorem bind {m : DecM α} {f : α → DecM β} (hm : PanicsOnly P m) (ha : Advances m)
    (hf : ∀ a, PanicsOnly P (f a)) : PanicsOnly P (m >>= f) :=
  hm.bind_ok ha fun _ a _ _ => hf a

/-- A step after `indirect`, which panics with what it returns as an error. -/
theorem resolve_bind {o : Option (Except Panic α)} {f : α → DecM β}
    (ho : ∀ q, o = some (.error q) → P q) (hf : ∀ a, o = some (.ok a) → PanicsOnly P (f a)) :
    PanicsOnly P (resolve o >>= f) := by
  intro dec hin hbin p h
  rcases o with _ | q | a
  · cases h
  · cases h; exact ho _ rfl
  · exact hf a rfl dec hin hbin p h

end PanicsOnly

/-! ## The reads -/

section Reads

variable {P : Panic → Prop}

theorem panicsOnly_unread : PanicsOnly P unread := fun dec hin _ p h => by
  rw [unread_of_inBounds hin] at h; cases h

theorem panicsOnly_readByte : PanicsOnly P readByte := fun dec hin _ p h => by
  unfold readByte at h
  rw [if_neg (not_lt.2 hin.1)] at h
  split_ifs at h

theorem panicsOnly_readBool : PanicsOnly P readBool := fun dec hin hbin p h => by
  unfold readBool at h
  split_ifs at h
  cases hb : readByte dec <;> rw [hb] at h <;> cases h
  exact panicsOnly_readByte dec hin hbin _ hb

theorem panicsOnly_readFixed (what : String) (w : Nat) (order : ByteOrder) :
    PanicsOnly P (readFixed what w order) := fun dec hin _ p h => by
  unfold readFixed at h
  rw [if_neg (not_lt.2 hin.1)] at h
  split_ifs at h

theorem panicsOnly_readBytes : ∀ n, PanicsOnly P (readBytes n)
  | 0 => PanicsOnly.pure _
  | n + 1 => panicsOnly_readByte.bind advances_readByte fun _ =>
    (panicsOnly_readBytes n).bind (advances_readBytes n) fun _ => PanicsOnly.pure _

theorem panicsOnly_readUint64 (order : ByteOrder) : PanicsOnly P (readUint64 order) :=
  fun dec hin hbin p h => by
    unfold readUint64 at h
    split_ifs at h
    refine (PanicsOnly.bind (fun d hd hb q hq => ?_) (advances_readNBytes 8)
      fun _ => PanicsOnly.pure _) dec hin hbin p h
    unfold readNBytes at hq
    exact panicsOnly_readBytes 8 d hd hb q hq

theorem panicsOnly_readFloat32 (order : ByteOrder) : PanicsOnly P (readFloat32 order) :=
  fun dec hin _ p h => by
    unfold readFloat32 at h
    dsimp only at h
    rw [if_neg (not_lt.2 hin.1)] at h
    split_ifs at h

theorem panicsOnly_readFloat64 (order : ByteOrder) : PanicsOnly P (readFloat64 order) :=
  fun dec hin _ p h => by
    unfold readFloat64 at h
    dsimp only at h
    rw [if_neg (not_lt.2 hin.1)] at h
    split_ifs at h

theorem panicsOnly_readUvarint64 : PanicsOnly P readUvarint64 :=
  panicsOnly_unread.bind advances_unread fun _ _ _ _ p h => by
    dsimp only at h
    split at h <;> cases h

/-- `ReadString` in the Bin encoding panics only at its slice expression, when the length
it read wraps past the end of Go's `int`. -/
theorem panicsOnly_readString (cu16 : CompactU16) :
    PanicsOnly (· = .sliceBoundsOutOfRange) (readString cu16) := by
  refine PanicsOnly.bind (fun dec hin hbin p h => ?_) (advances_readLength cu16)
    fun length dec _ _ p h => ?_
  · rw [readLength_bin cu16 hbin] at h
    exact panicsOnly_readUvarint64.map (P := (· = _)) toInt dec hin hbin p h
  · dsimp only at h
    split_ifs at h
    simp only [DecM.bind_apply, sliceData] at h
    split_ifs at h <;> cases h
    rfl

end Reads

/-! ## The types a decode arrives at -/

/-- `Reach env t u`: a decode into a value of type `t` makes nested calls on values of
type `u`, through pointer targets, array and slice elements and struct fields. -/
inductive Reach (env : TypeEnv) : GoType → GoType → Prop where
  | refl (t : GoType) : Reach env t t
  | ptr {t e u : GoType} : env.underlying t = .ptr e → Reach env e u → Reach env t u
  | array {t e u : GoType} {n : Nat} :
      env.underlying t = .array n e → Reach env e u → Reach env t u
  | slice {t e u : GoType} : env.underlying t = .slice e → Reach env e u → Reach env t u
  | field {t u : GoType} {fs : List (Field GoType)} {f : Field GoType} :
      env.underlying t = .struct fs → f ∈ fs → Reach env f.type u → Reach env t u

theorem Reach.trans {env : TypeEnv} {t u w : GoType} (h : Reach env t u) (h' : Reach env u w) :
    Reach env t w := by
  induction h with
  | refl => exact h'
  | ptr he _ ih => exact .ptr he (ih h')
  | array he _ ih => exact .array he (ih h')
  | slice he _ ih => exact .slice he (ih h')
  | field he hf _ ih => exact .field he hf (ih h')

/-- With no custom decoder in the program, no type has one. -/
theorem TypeEnv.methodOf_eq_none {env : TypeEnv} (hno : ∀ n, (env.decl n).unmarshaler = none)
    (t : GoType) : env.methodOf t = none := by
  unfold TypeEnv.methodOf
  split
  · exact hno _
  · rfl

/-! ## `indirect` from a zero value -/

/-- Where `indirect`, from a settable zero value of type `t` in a program without custom
decoders, may stop: at a settable zero value of a type reachable from `t`, or out of
fuel. -/
def StopsAtZero (env : TypeEnv) (t : GoType) : Option (Except Panic Indirection) → Prop
  | none => True
  | some (.ok ⟨none, .loc u q true, r⟩) => r.get q = some (env.zero u) ∧ Reach env t u
  | some _ => False

/-- Where `indirect` stops from a type `e` reachable from `t`, it stops from `t`. -/
theorem StopsAtZero.mono {env : TypeEnv} {t e : GoType} (he : ∀ u, Reach env e u → Reach env t u) :
    ∀ {o : Option (Except Panic Indirection)}, StopsAtZero env e o → StopsAtZero env t o
  | none, _ => trivial
  | some (.ok ⟨none, .loc _ _ true, _⟩), h => ⟨h.1, he _ h.2⟩
  | some (.error _), h | some (.ok ⟨some _, _, _⟩), h | some (.ok ⟨none, .invalid, _⟩), h
  | some (.ok ⟨none, .loc _ _ false, _⟩), h | some (.ok ⟨none, .addr _ _, _⟩), h => h.elim

section Indirect

variable {env : TypeEnv} (hno : ∀ n, (env.decl n).unmarshaler = none)
include hno

/-- The loop from a settable zero value allocates down the pointer types and stops at the
first zero value that is not a pointer. -/
theorem indirectLoop_stopsAtZero (v0 : RValue) :
    ∀ (n : Nat) {t : GoType} {p : List Step} {r : Value}, r.get p = some (env.zero t) →
      StopsAtZero env t (indirectLoop env false v0 n (.loc t p true) false r)
  | 0, _, _, _, _ => trivial
  | n + 1, t, p, r, hr => by
    by_cases hp : env.kind t = .ptr
    · obtain ⟨e, he⟩ := env.underlying_of_kind_ptr hp
      have hr' : r.get p = some (.ptr none) := by rw [hr, env.zero_of_kind_ptr hp]
      have hget : (r.set p (.ptr (some (env.zero e)))).get (p ++ [.deref]) =
          some (env.zero e) := by
        rw [Value.get_append, Value.get_set_self p r _ (by simp [hr'])]; rfl
      rw [indirectLoop_deref env he (TypeEnv.methodOf_eq_none hno t) hr' (fun _ => rfl)]
      exact (indirectLoop_stopsAtZero v0 n hget).mono fun _ => .ptr he
    · rw [indirectLoop_stop_zero env hr hp false v0 n true false]
      exact ⟨hr, .refl t⟩

/-- `indirect` from a settable zero value stops at a settable zero value of a reachable
type; under an optional directive, at the value itself. -/
theorem indirect_stopsAtZero (dn : Bool) :
    ∀ (n : Nat) {t : GoType} {p : List Step} {r : Value}, r.get p = some (env.zero t) →
      StopsAtZero env t (indirect env n (.loc t p true) dn r)
  | 0, _, _, _, _ => by simp only [indirect, indirectLoop_zero, ite_self]; trivial
  | n + 1, t, p, r, hr => by
    obtain ⟨f, -, heq⟩ := indirect_loc_settable env (TypeEnv.methodOf_eq_none hno _) p dn n r
    rw [heq]
    cases dn
    · exact indirectLoop_stopsAtZero hno _ f hr
    · cases f with
      | zero => trivial
      | succ f => rw [indirectLoop_zero_optional env hr]; exact ⟨hr, .refl t⟩

/-- At a type that is not a pointer, `indirect` from a settable zero value stays where it
is. -/
theorem indirect_zero_plain (dn : Bool) (n : Nat) {t : GoType} (hp : env.kind t ≠ .ptr)
    {p : List Step} {r : Value} (hr : r.get p = some (env.zero t)) :
    indirect env n (.loc t p true) dn r = none ∨
      indirect env n (.loc t p true) dn r = some (.ok ⟨none, .loc t p true, r⟩) := by
  cases n with
  | zero => left; simp only [indirect, indirectLoop_zero, ite_self]
  | succ n =>
    obtain ⟨f, -, heq⟩ := indirect_loc_settable env (TypeEnv.methodOf_eq_none hno _) p dn n r
    rw [heq]
    cases f with
    | zero => exact .inl rfl
    | succ f => exact .inr (indirectLoop_stop_zero env hr hp dn _ f true false)

end Indirect

/-! ## Size fields -/

/-- The kinds whose values `sizeof` turns into a size: the signed and unsigned integers. -/
def Kind.isSizeKind : Kind → Bool
  | .int | .int8 | .int16 | .int32 | .int64
  | .uint | .uint8 | .uint16 | .uint32 | .uint64 => true
  | _ => false

theorem DecM.bind_eq_ok {α β : Type} {m : DecM α} {f : α → DecM β} {dec d : Decoder} {b : β}
    (h : (m >>= f) dec = .ok b d) : ∃ a d', m dec = .ok a d' ∧ f a d' = .ok b d := by
  rw [DecM.bind_apply] at h
  cases hm : m dec with
  | ok a d' => rw [hm] at h; exact ⟨a, d', rfl, h⟩
  | _ => rw [hm] at h; cases h

theorem DecM.exists_of_map_eq_ok {α β : Type} {f : α → β} {m : DecM α} {dec d : Decoder} {b : β}
    (h : (f <$> m) dec = .ok b d) : ∃ a, m dec = .ok a d ∧ b = f a := by
  rw [DecM.map_apply] at h
  cases hm : m dec with
  | ok a d' => rw [hm] at h; cases h; exact ⟨a, rfl, rfl⟩
  | _ => rw [hm] at h; cases h

section Size

variable {env : TypeEnv} (cu16 : CompactU16)

/-- The zero value of an integer kind is a size. -/
theorem sizeof_zero_of_sizeKind {t : GoType} (hk : (env.kind t).isSizeKind = true) :
    ∃ i, sizeof env t (env.zero t) = pure i := by
  rw [← env.zero_underlying]
  unfold sizeof
  unfold TypeEnv.kind at hk ⊢
  generalize env.underlying t = u at hk ⊢
  cases u <;> first | exact absurd hk Bool.false_ne_true | exact ⟨_, rfl⟩

/-- What the dispatch reads at an integer kind is a size. -/
theorem sizeof_decodeKind {rec : DecodeFn} {opt : FieldOption} {t : GoType} {x y : Value}
    {dec d : Decoder} (hk : (env.kind t).isSizeKind = true)
    (h : decodeKind env cu16 rec opt t x dec = .ok y d) : ∃ i, sizeof env t y = pure i := by
  unfold decodeKind at h
  unfold sizeof
  unfold TypeEnv.kind at hk ⊢
  generalize env.underlying t = u at h hk ⊢
  cases u <;> first
    | exact absurd hk Bool.false_ne_true
    | cases h
    | obtain ⟨_, -, rfl⟩ := DecM.exists_of_map_eq_ok h; exact ⟨_, rfl⟩

variable (hno : ∀ n, (env.decl n).unmarshaler = none)
include hno

/-- A call of `decodeBin` on a fresh value of an integer kind that returns gives a size,
so the `sizeof` that follows it in `decodeStruct` does not panic. -/
theorem sizeof_decodeBin_zero (n : Nat) {t : GoType} (hk : (env.kind t).isSizeKind = true)
    (o : Option FieldOption) {dec d : Decoder} {y : Value}
    (h : decodeBin env cu16 n t true o (env.zero t) dec = .ok y d) :
    ∃ i, sizeof env t y = pure i := by
  have hp : env.kind t ≠ .ptr := fun h' => by rw [h'] at hk; cases hk
  have hz : (env.zero t).get [] = some (env.zero t) := rfl
  cases n with
  | zero => cases h
  | succ n =>
    have after : ∀ (dn : Bool) (opt : FieldOption) {dec d : Decoder} {y : Value},
        (resolve (indirect env n (.loc t [] true) dn (env.zero t)) >>= fun i =>
          decodeValue env cu16 (decodeBin env cu16 n) opt i.unmarshaler i.value i.root) dec =
          .ok y d → ∃ i, sizeof env t y = pure i := by
      intro dn opt dec d y h
      rcases indirect_zero_plain hno dn n hp hz with h0 | h0 <;> rw [h0] at h
      · cases h
      · simp only [resolve, DecM.pure_bind, decodeValue] at h
        obtain ⟨y', hy', rfl⟩ := DecM.exists_of_map_eq_ok h
        exact sizeof_decodeKind cu16 hk hy'
    cases ho : (o.getD newDefaultOption).optionalField
    · rw [decodeBin_eq_resolve env cu16 ho] at h
      exact after false _ h
    · cases o with
      | none => cases ho
      | some o =>
        rw [decodeBin_eq_resolve_optional env cu16 (o := o) ho] at h
        rcases indirect_zero_plain hno true n hp hz with h0 | h0 <;> rw [h0] at h
        · cases h
        · simp only [resolve, DecM.pure_bind] at h
          obtain ⟨b, d', -, hb⟩ := DecM.bind_eq_ok h
          split_ifs at hb
          · cases hb
            exact sizeof_zero_of_sizeKind hk
          · exact after false o hb

end Size

/-! ## The dispatch on a fresh value -/

/-- The panics `Decode` has on well-tagged types: at a length read from the input, which
is negative as an `int` or asks the runtime for more than `maxAlloc` bytes. -/
def LengthPanic (p : Panic) : Prop :=
  p = .sliceBoundsOutOfRange ∨ p = .reflectMakeSliceNegativeLen ∨ p = .allocationSizeOutOfRange

/-- A field's `sizeof=` tag, where the decoder reads the field, is on an integer. -/
def Field.sizeTagOk (env : TypeEnv) (f : Field GoType) : Bool :=
  !f.exported || f.tag.skip || f.tag.sizeOf == "" || (env.kind f.type).isSizeKind

/-- The `bin` tags of a struct type are well formed: the `binary_extension` fields come
last and every size field is an integer.  Other types have no tags. -/
def TypeEnv.wellTagged (env : TypeEnv) (t : GoType) : Bool :=
  match env.underlying t with
  | .struct fs => extensionsLast false fs && fs.all (Field.sizeTagOk env)
  | _ => true

/-- A program without custom decoders has none that could move the cursor back. -/
theorem TypeEnv.methodsAdvance_of_none {env : TypeEnv}
    (hno : ∀ n, (env.decl n).unmarshaler = none) : env.MethodsAdvance := fun t u h => by
  rw [TypeEnv.methodOf_eq_none hno] at h; cases h

theorem panicsOnly_readPresence {P : Panic → Prop} {u : GoType} {q : List Step} {s : Bool} :
    PanicsOnly P (readPresence (.loc u q s)) := fun dec hin hbin p h => by
  unfold readPresence at h
  cases hb : readByte dec <;> rw [hb] at h <;> cases h
  exact panicsOnly_readByte dec hin hbin _ hb

section Dispatch

variable {env : TypeEnv} (cu16 : CompactU16) (hno : ∀ n, (env.decl n).unmarshaler = none)
  (n : Nat)
include hno

theorem panicsOnly_decodeElems {et : GoType} (opt : FieldOption)
    (hrec : ∀ o, PanicsOnly LengthPanic (decodeBin env cu16 n et true o (env.zero et))) :
    ∀ k, PanicsOnly LengthPanic
      (decodeElems (decodeBin env cu16 n) et opt (List.replicate k (env.zero et)))
  | 0 => PanicsOnly.pure _
  | k + 1 =>
    have hadv := advances_decodeBin cu16 (TypeEnv.methodsAdvance_of_none hno) n
    (hrec _).bind (hadv _ _ _ _) fun _ =>
      (panicsOnly_decodeElems opt hrec k).bind (advances_decodeElems hadv _ _ _) fun _ =>
        PanicsOnly.pure _

/-- The loop of `decodeStruct` over fresh fields, in an order the tag check accepts, with
integer size fields. -/
theorem panicsOnly_decodeFields :
    ∀ (fs : List (Field GoType)) (m : String → Option Int) (seen : Bool),
      extensionsLast seen fs = true → (∀ f ∈ fs, f.sizeTagOk env = true) →
      (∀ f ∈ fs, ∀ o, PanicsOnly LengthPanic (decodeBin env cu16 n f.type true o (env.zero f.type))) →
      PanicsOnly LengthPanic
        (decodeFields env (decodeBin env cu16 n) fs (zeroFields env.namedZero fs) m seen)
  | [], _, _, _, _, _ => PanicsOnly.pure _
  | f :: fs, m, seen, hext, hsz, hrec => by
    have ih := fun m seen hext => panicsOnly_decodeFields fs m seen hext
      (fun g hg => hsz g (List.mem_cons_of_mem f hg)) (fun g hg => hrec g (List.mem_cons_of_mem f hg))
    have hadv := advances_decodeBin cu16 (TypeEnv.methodsAdvance_of_none hno) n
    rw [zeroFields, decodeFields]
    rw [extensionsLast] at hext
    by_cases hskip : f.tag.skip = true
    · rw [if_pos hskip] at hext ⊢
      exact (ih m seen hext).map _
    rw [if_neg hskip, Bool.and_eq_true] at hext
    have hord : ¬ (!f.tag.binaryExtension && seen) = true := by
      rw [Bool.and_eq_true, Bool.not_eq_true']
      rintro ⟨he, hs⟩
      simp [he, hs] at hext
    rw [if_neg hskip, if_neg hord]
    refine PanicsOnly.bind ?_ ?_ fun exhausted => ?_
    · split
      · exact panicsOnly_unread.map _
      · exact PanicsOnly.pure _
    · split
      · exact advances_unread.map _
      · exact Advances.pure _
    split
    · exact (ih m _ hext.2).map _
    rename_i hread
    refine (hrec f (List.mem_cons_self f fs) _).bind_ok (hadv _ _ _ _) fun dec v d hv => ?_
    refine PanicsOnly.bind ?_ ?_ fun m' => (ih m' _ hext.2).map _
    · split
      · rename_i hname
        have hexp : f.exported = true := by simp at hread; exact hread.2
        have hk : (env.kind f.type).isSizeKind = true := by
          simpa [Field.sizeTagOk, hskip, hname, hexp] using hsz f (List.mem_cons_self f fs)
        obtain ⟨i, hi⟩ := sizeof_decodeBin_zero cu16 hno n hk _ hv
        rw [hi]
        exact (PanicsOnly.pure _).map _
      · exact PanicsOnly.pure _
    · split
      · exact (advances_sizeof env _ _).map _
      · exact Advances.pure _

/-- The dispatch on the kind of a fresh value of a well-tagged type, when the nested
calls on the types it reaches panic only at lengths. -/
theorem panicsOnly_decodeKind (opt : FieldOption) {u : GoType} (hwf : env.wellTagged u = true)
    (hrec : ∀ w, Reach env u w → ∀ o,
      PanicsOnly LengthPanic (decodeBin env cu16 n w true o (env.zero w))) :
    PanicsOnly LengthPanic (decodeKind env cu16 (decodeBin env cu16 n) opt u (env.zero u)) := by
  unfold decodeKind
  cases hu : env.underlying u
  case string => exact ((panicsOnly_readString cu16).mono fun _ => .inl).map _
  case uint8 => exact panicsOnly_readByte.map _
  case int8 =>
    exact (panicsOnly_readByte.bind advances_readByte fun _ => PanicsOnly.pure _).map _
  case int16 =>
    exact ((panicsOnly_readFixed _ _ _).bind (advances_readFixed _ _ _)
      fun _ => PanicsOnly.pure _).map _
  case int32 =>
    exact ((panicsOnly_readFixed _ _ _).bind (advances_readFixed _ _ _)
      fun _ => PanicsOnly.pure _).map _
  case int64 =>
    exact ((panicsOnly_readUint64 _).bind (advances_readUint64 _)
      fun _ => PanicsOnly.pure _).map _
  case uint16 => exact (panicsOnly_readFixed _ _ _).map _
  case uint32 => exact (panicsOnly_readFixed _ _ _).map _
  case uint64 => exact (panicsOnly_readUint64 _).map _
  case float32 => exact (panicsOnly_readFloat32 _).map _
  case float64 => exact (panicsOnly_readFloat64 _).map _
  case bool => exact panicsOnly_readBool.map _
  case iface => exact PanicsOnly.pure _
  case array k et =>
    rw [env.zero_of_array hu]
    exact (panicsOnly_decodeElems cu16 hno n opt (hrec et (.array hu (.refl et))) k).map _
  case slice et =>
    refine PanicsOnly.bind ?_ ?_ fun l => ?_
    · split
      · exact PanicsOnly.pure _
      · exact panicsOnly_readUvarint64.map _
    · split
      · exact Advances.pure _
      · exact advances_readUvarint64.map _
    · rcases makeSlice_cases env et l with ⟨p, hp, hp'⟩ | ⟨-, hp⟩ <;> rw [hp]
      · rw [DecM.panic_bind]
        exact PanicsOnly.panic (.inr hp')
      · rw [DecM.pure_bind]
        exact (panicsOnly_decodeElems cu16 hno n opt (hrec et (.slice hu (.refl et))) _).map _
  case struct fs =>
    rw [env.zero_of_struct hu]
    simp only [TypeEnv.wellTagged, hu, Bool.and_eq_true, List.all_eq_true] at hwf
    exact (panicsOnly_decodeFields cu16 hno n fs _ false hwf.1 hwf.2
      fun f hf => hrec f.type (.field hu hf (.refl _))).map _
  all_goals exact PanicsOnly.fail _

/-- What follows `indirect` in `decodeBin`, wherever `indirect` stops from a fresh value. -/
theorem panicsOnly_resolve_decodeValue (opt : FieldOption) {t : GoType}
    (hwf : ∀ u, Reach env t u → env.wellTagged u = true)
    (hrec : ∀ u, Reach env t u → ∀ o,
      PanicsOnly LengthPanic (decodeBin env cu16 n u true o (env.zero u)))
    {o : Option (Except Panic Indirection)} (hs : StopsAtZero env t o) :
    PanicsOnly LengthPanic (resolve o >>= fun i =>
      decodeValue env cu16 (decodeBin env cu16 n) opt i.unmarshaler i.value i.root) := by
  refine PanicsOnly.resolve_bind (fun q hq => ?_) fun a ha => ?_
  · subst hq; exact hs.elim
  subst ha
  obtain ⟨_ | _, _ | ⟨u, q, _ | _⟩ | _, r⟩ := a <;> try exact hs.elim
  have hat : r.at q = env.zero u := by simp [Value.at, hs.1]
  show PanicsOnly _ ((r.set q ·) <$> decodeKind env cu16 _ opt u (r.at q))
  rw [hat]
  exact (panicsOnly_decodeKind cu16 hno n opt (hwf u hs.2)
    fun w hw => hrec w (hs.2.trans hw)).map _

end Dispatch

section Run

variable {env : TypeEnv} (cu16 : CompactU16) (hno : ∀ n, (env.decl n).unmarshaler = none)
include hno

/-- `decodeBin` on a fresh value of a type whose reachable types are well tagged panics
only at lengths. -/
theorem panicsOnly_decodeBin_zero : ∀ (n : Nat) {t : GoType},
    (∀ u, Reach env t u → env.wellTagged u = true) → ∀ o,
      PanicsOnly LengthPanic (decodeBin env cu16 n t true o (env.zero t))
  | 0, _, _, _ => fun _ _ _ _ => nofun
  | n + 1, t, hwf, o => by
    have hrec : ∀ u, Reach env t u → ∀ o,
        PanicsOnly LengthPanic (decodeBin env cu16 n u true o (env.zero u)) :=
      fun u hu => panicsOnly_decodeBin_zero n fun w hw => hwf w (hu.trans hw)
    have hz : (env.zero t).get [] = some (env.zero t) := rfl
    cases ho : (o.getD newDefaultOption).optionalField
    · rw [decodeBin_eq_resolve env cu16 ho]
      exact panicsOnly_resolve_decodeValue cu16 hno n _ hwf hrec
        (indirect_stopsAtZero hno false n hz)
    cases o with
    | none => cases ho
    | some o =>
      rw [decodeBin_eq_resolve_optional env cu16 (o := o) ho]
      have hs := indirect_stopsAtZero hno true n hz
      refine PanicsOnly.resolve_bind (fun q hq => ?_) fun a ha => ?_
      · rw [hq] at hs; exact hs.elim
      rw [ha] at hs
      obtain ⟨_ | _, _ | ⟨u, q, _ | _⟩ | _, r⟩ := a <;> try exact hs.elim
      refine panicsOnly_readPresence.bind (advances_readPresence _) fun b => ?_
      split
      · exact PanicsOnly.pure _
      · exact panicsOnly_resolve_decodeValue cu16 hno n o (fun w hw => hwf w (hs.2.trans hw))
          (fun w hw => hrec w (hs.2.trans hw)) (indirect_stopsAtZero hno false n hs.1)

end Run

end BinDecoder
