import BinDecoder.Exact
import BinDecoder.Encoding

/-!
# Bin-mode `Decode` undoes the Bin wire format

`decode_encode`: decoding the reference encoding of an encodable value
(`BinDecoder.Encoding`), followed by anything, into a pointer to a zero value reads
exactly the encoding and gives back `canon x`.  Fuel of the depth of the value plus three
is enough.

The proof follows one call of `decodeBin` on a zero destination:

* `indirect` runs its loop from the destination (`indirect_loc_settable`), goes down a nil
  pointer by allocating a zero target (`readsAs_loop_deref`), and stops at the first value
  that is not a pointer (`readsAs_loop_stop`);
* there `decodeKind` reads a scalar with one primitive read, and an array, a slice or a
  struct with one recursive call per element or field (`readsAs_decodeElems`,
  `readsAs_decodeFields`), each on a zero value again;
* under an optional directive the presence byte comes first (`roundTrips_of_loop`).

`LoopRoundTrip x` is the statement from inside the loop.  It holds of every value
(`loopRoundTrip`, by induction on the value), since the elements and fields of a value
are decoded by calls that have the fuel they need.
-/

namespace BinDecoder

open Decoder

/-! ## Destinations -/

theorem Value.depth_le_of_mem {x : Value} : ∀ {xs : List Value}, x ∈ xs → x.depth ≤ Value.depthList xs
  | _ :: _, .head _ => by simp only [Value.depthList]; omega
  | _ :: _, .tail _ h => by have := Value.depth_le_of_mem h; simp only [Value.depthList]; omega

section

variable (env : TypeEnv) (cu16 : CompactU16) (other : OtherDecoders)

theorem TypeEnv.zero_eq_of_underlying {t u : GoType} (h : env.underlying t = u) :
    env.zero t = env.zero u := by
  rw [← env.zero_underlying t, h]

theorem TypeEnv.zero_of_kind_ptr {t : GoType} (h : env.kind t = .ptr) : env.zero t = .ptr none := by
  rw [← env.zero_underlying]
  unfold TypeEnv.kind at h
  generalize env.underlying t = u at h ⊢
  cases u <;> first | rfl | cases h

/-- A pointer type whose target type has no custom decoder has none either. -/
theorem TypeEnv.methodOf_of_underlying_ptr {t et : GoType} (h : env.underlying t = .ptr et)
    (hm : env.methodOf (.ptr et) = none) : env.methodOf t = none := by
  cases t with
  | ptr e => cases h; exact hm
  | named n => rfl
  | _ => cases h

/-! ## The steps of `decodeBin` on a zero destination -/

/-- Under a directive that is not optional, `decodeBin` is `indirect` followed by
`decodeValue`. -/
theorem decodeBin_eq_resolve {n : Nat} {t : GoType} {s : Bool} {o : Option FieldOption}
    {x : Value} (ho : (o.getD newDefaultOption).optionalField = false) :
    decodeBin env cu16 (n + 1) t s o x =
      (resolve (indirect env n (.loc t [] s) false x) >>= fun i =>
        decodeValue env cu16 (decodeBin env cu16 n) (o.getD newDefaultOption) i.unmarshaler
          i.value i.root) := by
  simp only [decodeBin, ho, Bool.false_eq_true, if_false]

/-- From a settable value whose pointer type has no custom decoder, `indirect` runs its
loop from the value itself, after at most one round through its address. -/
theorem indirect_loc_settable {t : GoType} (hm : env.methodOf (.ptr t) = none) (p : List Step)
    (dn : Bool) (n : Nat) (r : Value) :
    ∃ f, n ≤ f ∧ indirect env (n + 1) (.loc t p true) dn r =
      indirectLoop env dn (.loc t p true) f (.loc t p true) false r := by
  simp only [indirect]
  split_ifs
  · exact ⟨n, le_rfl, indirectLoop_addr env hm dn _ n p r⟩
  · exact ⟨n + 1, Nat.le_succ n, rfl⟩

/-- The first `indirect` of an optional directive stops at once at a zero destination: at
the nil pointer, or at the value itself. -/
theorem indirect_zero_optional {t : GoType} (hi : env.kind t ≠ .interface)
    (hm : env.kind t ≠ .ptr → env.methodOf (.ptr t) = none) (n : Nat) :
    indirect env (n + 2) (.loc t [] true) true (env.zero t) =
      some (.ok ⟨none, .loc t [] true, env.zero t⟩) := by
  by_cases hp : env.kind t = .ptr
  · simp only [indirect, hp, ne_eq, not_true_eq_false, false_and, if_false]
    exact indirectLoop_nil_optional env hp (by rw [env.zero_of_kind_ptr hp]; rfl) _ (n + 1) false
  · exact indirect_plain env hp hi (hm hp) [] true n _

/-- The type of an encodable value has no custom decoder and is not an interface. -/
theorem encodableBody_type {opt : FieldOption} {t : GoType} {x : Value}
    (h : encodableBody env opt t x = true) :
    env.methodOf (.ptr t) = none ∧ env.kind t ≠ .interface := by
  unfold encodableBody at h
  rw [Bool.and_eq_true, Option.isNone_iff_eq_none] at h
  refine ⟨h.1, fun hk => ?_⟩
  have hu : env.underlying t = .iface := by
    unfold TypeEnv.kind at hk
    generalize env.underlying t = u at hk ⊢
    cases u <;> first | rfl | cases hk
  rcases x with _ | _ | _ | _ | _ | _ | _ | (_ | _) | _ | _ | _ <;> simp [hu] at h

/-! ## The round trip from inside `indirect`'s loop -/

/-- The round trip of `x` from inside `indirect`'s loop: the loop reaches the zero value at
path `p` of the destination `r`, and `decodeValue` reads the encoding of `x` and writes
`canon x` there. -/
def LoopRoundTrip (x : Value) : Prop :=
  ∀ (t : GoType) (opt : FieldOption) (f m : Nat) (p : List Step) (r : Value) (v0 : RValue),
    encodableBody env opt t x = true → r.get p = some (env.zero t) → x.depth < f →
    x.depth + 2 ≤ m →
    ReadsAs (resolve (indirectLoop env false v0 f (.loc t p true) false r) >>= fun i =>
        decodeValue env cu16 (decodeBin env cu16 m) opt i.unmarshaler i.value i.root)
      (encodeBody env opt t x) (r.set p (canon env t x))

/-- The round trip of `x` through the call `rec` on a zero destination, under every
directive that can encode it. -/
def RoundTrips (rec : DecodeFn) (x : Value) : Prop :=
  ∀ (t : GoType) (opt : FieldOption), encodable env opt t x = true →
    ReadsAs (rec t true (some opt) (env.zero t)) (encode env opt t x) (canon env t x)

/-- A call of `decodeBin` on a zero destination: under an optional directive the presence
byte, then, for a present value, `indirect`'s loop from the destination. -/
theorem roundTrips_of_loop {x : Value} (hx : LoopRoundTrip env cu16 x) {n : Nat}
    (hn : x.depth + 3 ≤ n) : RoundTrips env (decodeBin env cu16 n) x := by
  intro t opt h
  obtain ⟨k, rfl⟩ : ∃ k, n = k + 2 + 1 := ⟨n - 3, by omega⟩
  have hbody : encodableBody env opt t x = true →
      ReadsAs (resolve (indirect env (k + 2) (.loc t [] true) false (env.zero t)) >>= fun i =>
        decodeValue env cu16 (decodeBin env cu16 (k + 2)) opt i.unmarshaler i.value i.root)
        (encodeBody env opt t x) (canon env t x) := fun hb => by
    obtain ⟨f, hf, he⟩ :=
      indirect_loc_settable env (encodableBody_type env hb).1 [] false (k + 1) (env.zero t)
    have := hx t opt f (k + 2) [] (env.zero t) (.loc t [] true) hb rfl (by omega) (by omega)
    rwa [he, ← Value.set_nil (env.zero t) (canon env t x)]
  cases ho : opt.optionalField
  · have hb : encodableBody env opt t x = true := by simpa [encodable, presenceOk, ho] using h
    rw [decodeBin_eq_resolve env cu16 (o := some opt) ho]
    simpa [encode, withPresence, ho] using hbody hb
  have hcases : (x = .ptr none ∧ env.kind t = .ptr) ∨
      (x.isNilPtr = false ∧ encodableBody env opt t x = true) := by
    cases hnil : x.isNilPtr
    · exact .inr ⟨rfl, by simpa [encodable, presenceOk, ho, hnil] using h⟩
    · exact .inl ⟨Value.isNilPtr_eq_true.mp hnil, by simpa [encodable, presenceOk, ho, hnil] using h⟩
  have hfirst : indirect env (k + 2) (.loc t [] true) true (env.zero t) =
      some (.ok ⟨none, .loc t [] true, env.zero t⟩) := by
    rcases hcases with ⟨-, hk⟩ | ⟨-, hb⟩
    · exact indirect_zero_optional env (by rw [hk]; decide) (fun h' => absurd hk h') k
    · exact indirect_zero_optional env (encodableBody_type env hb).2
        (fun _ => (encodableBody_type env hb).1) k
  rw [show decodeBin env cu16 (k + 2 + 1) t true (some opt) (env.zero t) = _ from
    funext (decodeBin_optional env cu16 (o := some opt) ho hfirst)]
  simp only [Option.getD_some]
  rcases hcases with ⟨rfl, hk⟩ | ⟨hnil, hb⟩
  · -- absent: the presence byte `0`, and the zero value
    simp only [encode, withPresence, ho, Value.isNilPtr, if_true]
    refine (readsAs_readPresence _ 0).bind ?_
    simp only [if_true, setZero, Value.set_nil, canon, ← env.zero_of_kind_ptr hk]
    exact ReadsAs.pure _
  · -- present: the presence byte `1`, and the value
    simp only [encode, withPresence, ho, hnil, if_true, Bool.false_eq_true, if_false]
    refine (readsAs_readPresence _ 1).bind ?_
    simpa using hbody hb

/-- The loop stops at a value that is neither a pointer nor an interface, and `decodeKind`
takes over. -/
theorem readsAs_loop_stop {rec : DecodeFn} {opt : FieldOption} {t u : GoType}
    (hu : env.underlying t = u) (hp : u.kind ≠ .ptr) (hi : u.kind ≠ .interface) {p : List Step}
    {r : Value} (hr : r.get p = some (env.zero t)) {bs : List UInt8} {y : Value}
    (hK : ReadsAs (decodeKind env cu16 rec opt t (env.zero t)) bs y) (v0 : RValue) (f : Nat) :
    ReadsAs (resolve (indirectLoop env false v0 (f + 1) (.loc t p true) false r) >>= fun i =>
        decodeValue env cu16 rec opt i.unmarshaler i.value i.root) bs (r.set p y) := by
  have hk : env.kind t = u.kind := by rw [TypeEnv.kind, hu]
  rw [indirectLoop_stop env (hk ▸ hp) (hk ▸ hi)]
  intro dec s hin hbin h
  simp only [resolve_ok_bind, decodeValue_loc, Value.at, hr, Option.getD_some,
    hK dec s hin hbin h, Outcome.bind_ok, DecM.pure_apply]

/-- The loop goes down a nil pointer with no custom decoder, allocating a zero target. -/
theorem readsAs_loop_deref {rec : DecodeFn} {opt : FieldOption} {t et : GoType}
    (hu : env.underlying t = .ptr et) (hm : env.methodOf t = none) {p : List Step} {r : Value}
    (hr : r.get p = some (env.zero t)) {bs : List UInt8} {y : Value} (v0 : RValue) (f : Nat)
    (hy : ReadsAs (resolve (indirectLoop env false v0 f (.loc et (p ++ [.deref]) true) false
        (r.set p (.ptr (some (env.zero et))))) >>= fun i =>
          decodeValue env cu16 rec opt i.unmarshaler i.value i.root)
      bs ((r.set p (.ptr (some (env.zero et)))).set (p ++ [.deref]) y)) :
    ReadsAs (resolve (indirectLoop env false v0 (f + 1) (.loc t p true) false r) >>= fun i =>
        decodeValue env cu16 rec opt i.unmarshaler i.value i.root) bs (r.set p (.ptr (some y))) := by
  rw [env.zero_eq_of_underlying hu] at hr
  rw [indirectLoop_deref env hu hm hr (fun _ => rfl) v0 f, Option.getD_none]
  rwa [Value.set_append p [.deref] _ _ _ (Value.get_set_self p r _ (by simp [hr])),
    Value.set_deref, Value.set_nil, Value.set_set] at hy


/-! ## Elements and fields -/

theorem readsAs_decodeElems {rec : DecodeFn} {opt : FieldOption} {et : GoType} :
    ∀ xs : List Value, (∀ x ∈ xs, RoundTrips env rec x) → encodableElems env opt et xs = true →
      ReadsAs (decodeElems rec et opt (List.replicate xs.length (env.zero et)))
        (encodeElems env opt et xs) (canonElems env et xs)
  | [], _, _ => ReadsAs.pure []
  | x :: xs, ih, h => by
    simp only [encodableElems, Bool.and_eq_true] at h
    exact (ih x (List.mem_cons_self x xs) et opt h.1).bind
      ((readsAs_decodeElems xs (fun y hy => ih y (List.mem_cons_of_mem x hy)) h.2).bind_pure _)

/-! ## Sizes no slice has

An unsigned `sizeof` field of `2^63` or more is read back negative by `sizeof`, which hands
its slice `0` instead.  Such a size names no encodable slice, so the field it links
encodes the same under either. -/

/-- The size links `decodeStruct` holds against the spec's: the same, except where the
spec links a size of `2^63` or more and the decoder `0`. -/
def LinksAgree (m links : String → Option Int) : Prop :=
  ∀ nm, m nm = links nm ∨ ∃ n : Int, 2 ^ 63 ≤ n ∧ links nm = some n ∧ m nm = some 0

theorem linksAgree_refl (links : String → Option Int) : LinksAgree links links :=
  fun _ => .inl rfl

/-- Under a size of `2^63` or more an encodable value reaches no slice, so any other size
encodes it to the same bytes. -/
theorem encodableBody_resize {opt : FieldOption} {n : Int} (hs : opt.sizeOfSlice = some n)
    (hn : 2 ^ 63 ≤ n) (k : Int) :
    ∀ (x : Value) (t : GoType), encodableBody env opt t x = true →
      encodableBody env { opt with sizeOfSlice := some k } t x = true ∧
        encodeBody env { opt with sizeOfSlice := some k } t x = encodeBody env opt t x := by
  refine Value.rec
    (motive_1 := fun x => ∀ t, encodableBody env opt t x = true →
      encodableBody env { opt with sizeOfSlice := some k } t x = true ∧
        encodeBody env { opt with sizeOfSlice := some k } t x = encodeBody env opt t x)
    (motive_2 := fun xs => ∀ et, encodableElems env opt et xs = true →
      encodableElems env { opt with sizeOfSlice := some k } et xs = true ∧
        encodeElems env { opt with sizeOfSlice := some k } et xs = encodeElems env opt et xs)
    (motive_3 := fun o => ∀ y ∈ o, ∀ t, encodableBody env opt t y = true →
      encodableBody env { opt with sizeOfSlice := some k } t y = true ∧
        encodeBody env { opt with sizeOfSlice := some k } t y = encodeBody env opt t y)
    (motive_4 := fun _ => True) (motive_5 := fun _ => True)
    ?bool ?int ?uint ?float ?string ?array ?slice ?ptr ?struct ?iface ?other
    ?nil ?cons ?none ?some ?inone ?isome ?mk
  case bool | int | uint | float | string => exact fun _ _ h => ⟨h, rfl⟩
  case struct => exact fun _ _ _ h => ⟨h, rfl⟩
  case array =>
    intro xs ih t h
    simp only [encodableBody, Bool.and_eq_true] at h
    obtain ⟨hm, h⟩ := h
    split at h
    · rename_i _ et hu
      simp only [Bool.and_eq_true] at h
      have hxs := ih et h.2
      simp only [encodableBody, encodeBody, TypeEnv.elem, hu, hm, h.1, hxs.1, hxs.2,
        Bool.and_self, and_self]
    · cases h
  case slice =>
    intro xs _ t h
    simp only [encodableBody, Bool.and_eq_true] at h
    split at h
    · simp only [hs, Option.all_some, Bool.and_eq_true, decide_eq_true_eq] at h
      omega
    · exact absurd h.2 Bool.false_ne_true
  case ptr =>
    rintro (_ | y) ih t h
    · simp [encodableBody] at h
    simp only [encodableBody, Bool.and_eq_true] at h
    obtain ⟨hm, h⟩ := h
    split at h
    · rename_i et hu
      have hy := ih y rfl et h
      simp only [encodableBody, encodeBody, TypeEnv.elem, hu, hm, hy.1, hy.2, Bool.and_self,
        and_self]
    · cases h
  case iface => intro _ _ t h; simp [encodableBody] at h
  case other => intro _ t h; simp [encodableBody] at h
  case nil => exact fun _ _ => ⟨rfl, rfl⟩
  case cons =>
    intro x xs hx hxs et h
    simp only [encodableElems, Bool.and_eq_true] at h
    have hrest := hxs et h.2
    simp only [encodableElems, encodeElems, presenceOk, withPresence, hrest.1, hrest.2,
      Bool.and_true]
    unfold presenceOk at h
    split at h
    · rename_i hc
      simp only [Bool.and_eq_true] at hc
      simp only [hc.1, hc.2, Bool.and_self, if_true, h.1, and_self]
    · rename_i hc
      have hx' := hx et h.1
      exact ⟨by rw [if_neg hc]; exact hx'.1, by rw [hx'.2]⟩
  case none => exact fun _ h => nomatch h
  case some => exact fun x hx y hy => Option.some_injective _ hy ▸ hx
  case inone => trivial
  case isome => exact fun _ _ => trivial
  case mk => exact fun _ _ _ => trivial

/-- `encodableBody_resize` with the presence byte. -/
theorem encodable_resize {opt : FieldOption} {n : Int} (hs : opt.sizeOfSlice = some n)
    (hn : 2 ^ 63 ≤ n) (k : Int) {t : GoType} {x : Value} (h : encodable env opt t x = true) :
    encodable env { opt with sizeOfSlice := some k } t x = true ∧
      encode env { opt with sizeOfSlice := some k } t x = encode env opt t x := by
  unfold encodable presenceOk at h ⊢
  unfold encode withPresence
  dsimp only
  split at h
  · rename_i hc
    simp only [Bool.and_eq_true] at hc
    simp only [hc.1, hc.2, Bool.and_self, if_true, h, and_self]
  · have hr := encodableBody_resize env hs hn k x t h
    rw [if_neg ‹_›, hr.1, hr.2]
    exact ⟨rfl, rfl⟩

/-- The directive `decodeStruct` gives a field encodes what the spec's directive encodes,
when their links agree. -/
theorem fieldOption_agree {m links : String → Option Int} (hml : LinksAgree m links)
    (f : Field GoType) {v : Value} (h : encodable env (fieldDirective f links) f.type v = true) :
    encodable env (fieldOption f m) f.type v = true ∧
      encode env (fieldOption f m) f.type v = encode env (fieldDirective f links) f.type v := by
  rcases hml f.name with he | ⟨n, hn, hl, hm⟩
  · rw [fieldOption, he]
    exact ⟨h, rfl⟩
  · rw [fieldOption, hm]
    exact encodable_resize env (show (fieldDirective f links).sizeOfSlice = some n from hl) hn 0 h

/-- A size field gives its slice the number it holds, clamped to `0` where `sizeof` reads
an unsigned size negative. -/
theorem sizeof_canon {opt : FieldOption} {t : GoType} {v : Value} (h : sizeFieldOk env t v = true)
    (hb : encodable env opt t v = true) :
    ∃ k, v.asInt = some k ∧ sizeof env t (canon env t v) = pure (if 2 ^ 63 ≤ k then 0 else k) := by
  cases v with
  | int i =>
    simp only [sizeFieldOk] at h
    refine ⟨i, rfl, ?_⟩
    split at h
    all_goals first
      | exact absurd h Bool.false_ne_true
      | rename_i hu
        simp only [encodable, presenceOk, Value.isNilPtr, Bool.and_false, Bool.false_eq_true,
          if_false, encodableBody, hu, Bool.and_eq_true, decide_eq_true_eq] at hb
        unfold sizeof; rw [TypeEnv.kind, hu]
        exact congrArg pure (if_neg (by omega)).symm
  | uint n =>
    simp only [sizeFieldOk] at h
    refine ⟨n, rfl, ?_⟩
    split at h
    all_goals first
      | exact absurd h Bool.false_ne_true
      | rename_i hu
        simp only [encodable, presenceOk, Value.isNilPtr, Bool.and_false, Bool.false_eq_true,
          if_false, encodableBody, hu, Bool.and_eq_true, decide_eq_true_eq] at hb
        unfold sizeof; rw [TypeEnv.kind, hu]
        refine congrArg pure ?_
        dsimp only
        by_cases hn : n < 2 ^ 63
        · rw [toInt_of_lt hn, if_neg (by omega), if_neg (by omega)]
        · rw [if_pos (toInt_neg (by omega) (by omega)), if_pos (by omega)]
  | _ => simp [sizeFieldOk] at h

/-- What `decodeStruct` does after a decoded field: a `sizeof` field records the number it
holds for the field it names, as `nextLinks` does, up to the clamping of `sizeof`. -/
theorem readsAs_sizeOfMap {f : Field GoType} {v : Value} {m links : String → Option Int}
    (hml : LinksAgree m links) (hf : f.tag.skip = false ∧ f.exported = true)
    (hs : f.tag.sizeOf = "" ∨ sizeFieldOk env f.type v = true)
    (hb : encodable env (fieldDirective f links) f.type v = true) :
    ∃ m', LinksAgree m' (nextLinks f v links) ∧
      ReadsAs (if f.tag.sizeOf ≠ "" then
          (fun size => Function.update m f.tag.sizeOf (some size)) <$>
            sizeof env f.type (canon env f.type v)
        else Pure.pure m) [] m' := by
  by_cases hz : f.tag.sizeOf = ""
  · rw [if_neg (not_not.mpr hz), show nextLinks f v links = links by simp [nextLinks, hz]]
    exact ⟨m, hml, ReadsAs.pure m⟩
  · obtain ⟨k, hk, he⟩ := sizeof_canon env (hs.resolve_left hz) hb
    rw [if_pos hz, he, show nextLinks f v links = Function.update links f.tag.sizeOf (some k) by
      simp [nextLinks, hf, hz, hk]]
    refine ⟨_, fun nm => ?_, (ReadsAs.pure _).map _⟩
    by_cases hnm : nm = f.tag.sizeOf
    · subst hnm
      simp only [Function.update_same]
      by_cases hk' : 2 ^ 63 ≤ k
      · exact .inr ⟨k, hk', rfl, by rw [if_pos hk']⟩
      · exact .inl (by rw [if_neg hk'])
    · simp only [Function.update_noteq hnm]
      exact hml nm

theorem readsAs_decodeFields {rec : DecodeFn} :
    ∀ (fs : List (Field GoType)) (vs : List Value) (m links : String → Option Int),
      LinksAgree m links → (∀ v ∈ vs, RoundTrips env rec v) →
      encodableFields env fs vs links = true →
      ReadsAs (decodeFields env rec fs (zeroFields env.namedZero fs) m false)
        (encodeFields env fs vs links) (canonFields env fs vs)
  | [], [], _, _, _, _, _ => ReadsAs.pure []
  | [], _ :: _, _, _, _, _, h | _ :: _, [], _, _, _, _, h => by
    simp only [encodableFields_nil_cons, encodableFields_cons_nil, Bool.false_eq_true] at h
  | f :: fs, v :: vs, m, links, hml, ih, h => by
    simp only [encodableFields_cons, Bool.and_eq_true, Bool.not_eq_true', Bool.or_eq_true,
      Bool.not_eq_true, decide_eq_true_eq] at h
    obtain ⟨⟨hext, hf⟩, hrest⟩ := h
    have ih' : ∀ w ∈ vs, RoundTrips env rec w := fun w hw => ih w (List.mem_cons_of_mem v hw)
    rw [zeroFields, decodeFields]
    by_cases hskip : f.tag.skip = true
    · have hn : nextLinks f v links = links := by simp [nextLinks, hskip]
      rw [hn] at hrest
      simp only [hskip, if_true, encodeFields_cons, canonFields_cons, Bool.true_or,
        List.nil_append, hn]
      exact (readsAs_decodeFields fs vs m links hml ih' hrest).map _
    by_cases hexp : f.exported = false
    · have hn : nextLinks f v links = links := by simp [nextLinks, hexp]
      rw [hn] at hrest
      simp only [hskip, hext, hexp, encodeFields_cons, canonFields_cons, Bool.not_false,
        Bool.or_true, Bool.or_self, Bool.and_false, Bool.false_eq_true, if_true, if_false,
        List.nil_append, hn]
      exact (ReadsAs.pure false).bind ((readsAs_decodeFields fs vs m links hml ih' hrest).map _)
    simp only [Bool.not_eq_true, Bool.not_eq_false] at hskip hexp
    have hf' := hf.resolve_left (by simp [hskip, hexp])
    obtain ⟨m', hm', hsize⟩ := readsAs_sizeOfMap env hml ⟨hskip, hexp⟩ hf'.2 hf'.1
    have hopt := fieldOption_agree env hml f hf'.1
    simp only [hskip, hext, hexp, encodeFields_cons, canonFields_cons, Bool.not_true,
      Bool.or_false, Bool.or_self, Bool.and_false, Bool.false_eq_true, if_false]
    refine (ReadsAs.pure false).bind ?_
    simp only [Bool.false_eq_true, if_false]
    have hfield := ih v (List.mem_cons_self v vs) f.type (fieldOption f m) hopt.1
    rw [hopt.2] at hfield
    exact hfield.bind (hsize.bind
      ((readsAs_decodeFields fs vs m' (nextLinks f v links) hm' ih' hrest).map _))


theorem roundTrips_of_mem {xs : List Value} (ih : ∀ x ∈ xs, LoopRoundTrip env cu16 x) {m : Nat}
    (hm : Value.depthList xs + 3 ≤ m) : ∀ x ∈ xs, RoundTrips env (decodeBin env cu16 m) x :=
  fun x hx => roundTrips_of_loop env cu16 (ih x hx) (by have := Value.depth_le_of_mem hx; omega)

/-! ## Arrays, slices and structs -/

theorem readsAs_decodeKind_array {rec : DecodeFn} {opt : FieldOption} {t et : GoType} {n : Nat}
    (hu : env.underlying t = .array n et) {xs : List Value} (hn : xs.length = n)
    (hxs : encodableElems env opt et xs = true) (ih : ∀ x ∈ xs, RoundTrips env rec x) :
    ReadsAs (decodeKind env cu16 rec opt t (env.zero t)) (encodeElems env opt et xs)
      (.array (canonElems env et xs)) := by
  simp only [decodeKind, hu, env.zero_eq_of_underlying hu]
  subst hn
  exact (readsAs_decodeElems env xs ih hxs).map _

/-- The element count of a slice: the size its directive links to it, or a uvarint. -/
theorem readsAs_decodeKind_slice {rec : DecodeFn} {opt : FieldOption} {t et : GoType}
    (hu : env.underlying t = .slice et) {xs : List Value} (hl : xs.length < 2 ^ 63)
    (hlink : opt.sizeOfSlice.all (· = (xs.length : Int)) = true)
    (halloc : xs.length = 1 ∨ env.size et * xs.length ≤ maxAlloc)
    (hxs : encodableElems env opt et xs = true) (ih : ∀ x ∈ xs, RoundTrips env rec x) :
    ReadsAs (decodeKind env cu16 rec opt t (env.zero t))
      ((if opt.sizeOfSlice.isSome then [] else putUvarint xs.length) ++ encodeElems env opt et xs)
      (.slice (canonElems env et xs)) := by
  have hcount : ReadsAs
      (match opt.sizeOfSlice with
        | some l => Pure.pure l
        | none => toInt <$> readUvarint64)
      (if opt.sizeOfSlice.isSome then [] else putUvarint xs.length) (xs.length : Int) := by
    cases hs : opt.sizeOfSlice with
    | some l =>
      simp only [hs, Option.all_some, decide_eq_true_eq] at hlink
      simpa [hlink] using ReadsAs.pure (xs.length : Int)
    | none =>
      simp only [Option.isSome_none, Bool.false_eq_true, if_false]
      rw [← toInt_of_lt hl]
      exact (readsAs_readUvarint64 (by omega)).map toInt
  simp only [decodeKind, hu]
  refine hcount.bind ?_
  simp only [makeSlice_of_le env halloc, DecM.pure_bind]
  exact (readsAs_decodeElems env xs ih hxs).map _

theorem readsAs_decodeKind_struct {rec : DecodeFn} {opt : FieldOption} {t : GoType}
    {fs : List (Field GoType)} (hu : env.underlying t = .struct fs) {vs : List Value}
    (hvs : encodableFields env fs vs (fun _ => none) = true) (ih : ∀ v ∈ vs, RoundTrips env rec v) :
    ReadsAs (decodeKind env cu16 rec opt t (env.zero t)) (encodeFields env fs vs fun _ => none)
      (.struct (canonFields env fs vs)) := by
  simp only [decodeKind, hu, env.zero_eq_of_underlying hu]
  exact (readsAs_decodeFields env fs vs _ _ (linksAgree_refl _) ih hvs).map _

/-! ## Every kind of value -/

theorem loopRoundTrip_bool (b : Bool) : LoopRoundTrip env cu16 (.bool b) := by
  intro t opt f m p r v0 h hr hf _
  obtain ⟨f, rfl⟩ : ∃ f', f = f' + 1 := ⟨f - 1, by omega⟩
  simp only [encodableBody, Bool.and_eq_true] at h
  obtain ⟨-, h⟩ := h
  split at h
  · rename_i hu
    refine readsAs_loop_stop env cu16 hu (by decide) (by decide) hr ?_ v0 f
    rw [decodeKind, hu]
    simpa [encodeBody, canon] using (readsAs_readBool (if b then 1 else 0)).map Value.bool
  · cases h

theorem loopRoundTrip_int (i : Int) : LoopRoundTrip env cu16 (.int i) := by
  intro t opt f m p r v0 h hr hf _
  obtain ⟨f, rfl⟩ : ∃ f', f = f' + 1 := ⟨f - 1, by omega⟩
  simp only [encodableBody, Bool.and_eq_true] at h
  obtain ⟨-, h⟩ := h
  simp only [encodeBody, canon]
  split at h <;> rename_i hu
  · rw [hu]
    refine readsAs_loop_stop env cu16 hu (by decide) (by decide) hr ?_ v0 f
    rw [decodeKind, hu]
    exact (readsAs_readInt8 opt.order (by simpa using h)).map _
  · rw [hu]
    refine readsAs_loop_stop env cu16 hu (by decide) (by decide) hr ?_ v0 f
    rw [decodeKind, hu]
    exact (readsAs_readInt16 opt.order (by simpa using h)).map _
  · rw [hu]
    refine readsAs_loop_stop env cu16 hu (by decide) (by decide) hr ?_ v0 f
    rw [decodeKind, hu]
    exact (readsAs_readInt32 opt.order (by simpa using h)).map _
  · rw [hu]
    refine readsAs_loop_stop env cu16 hu (by decide) (by decide) hr ?_ v0 f
    rw [decodeKind, hu]
    exact (readsAs_readInt64 opt.order (by simpa using h)).map _
  · cases h

theorem loopRoundTrip_uint (n : Nat) : LoopRoundTrip env cu16 (.uint n) := by
  intro t opt f m p r v0 h hr hf _
  obtain ⟨f, rfl⟩ : ∃ f', f = f' + 1 := ⟨f - 1, by omega⟩
  simp only [encodableBody, Bool.and_eq_true] at h
  obtain ⟨-, h⟩ := h
  simp only [encodeBody, canon]
  split at h <;> rename_i hu <;> try simp only [decide_eq_true_eq] at h
  · rw [hu]
    refine readsAs_loop_stop env cu16 hu (by decide) (by decide) hr ?_ v0 f
    rw [decodeKind, hu]
    simpa [UInt8.toNat_ofNat_of_lt (show n < UInt8.size from h)] using
      (readsAs_readUint8 opt.order h).map fun b => Value.uint b.toNat
  · rw [hu]
    refine readsAs_loop_stop env cu16 hu (by decide) (by decide) hr ?_ v0 f
    rw [decodeKind, hu]
    exact (readsAs_readUint16 opt.order h).map _
  · rw [hu]
    refine readsAs_loop_stop env cu16 hu (by decide) (by decide) hr ?_ v0 f
    rw [decodeKind, hu]
    exact (readsAs_readUint32 opt.order h).map _
  · rw [hu]
    refine readsAs_loop_stop env cu16 hu (by decide) (by decide) hr ?_ v0 f
    rw [decodeKind, hu]
    exact (readsAs_readUint64' opt.order h).map _
  · cases h

/-- A float32 comes back with its quiet bit set when it is a NaN (`float32RoundTrip`). -/
theorem loopRoundTrip_float (bits : Nat) : LoopRoundTrip env cu16 (.float bits) := by
  intro t opt f m p r v0 h hr hf _
  obtain ⟨f, rfl⟩ : ∃ f', f = f' + 1 := ⟨f - 1, by omega⟩
  simp only [encodableBody, Bool.and_eq_true] at h
  obtain ⟨-, h⟩ := h
  simp only [encodeBody, canon]
  split at h <;> rename_i hu <;> try simp only [decide_eq_true_eq] at h
  · rw [hu]
    refine readsAs_loop_stop env cu16 hu (by decide) (by decide) hr ?_ v0 f
    rw [decodeKind, hu]
    have hK := (readsAs_readFloat32 opt.order bits).map fun n => Value.float (float32RoundTrip n)
    rwa [Nat.mod_eq_of_lt (by simpa using h)] at hK
  · rw [hu]
    refine readsAs_loop_stop env cu16 hu (by decide) (by decide) hr ?_ v0 f
    rw [decodeKind, hu]
    have hK := (readsAs_readFloat64 opt.order bits).map Value.float
    rwa [Nat.mod_eq_of_lt (by simpa using h)] at hK
  · cases h

theorem loopRoundTrip_string (bs : List UInt8) : LoopRoundTrip env cu16 (.string bs) := by
  intro t opt f m p r v0 h hr hf _
  obtain ⟨f, rfl⟩ : ∃ f', f = f' + 1 := ⟨f - 1, by omega⟩
  simp only [encodableBody, Bool.and_eq_true] at h
  obtain ⟨-, h⟩ := h
  split at h
  · rename_i hu
    simp only [decide_eq_true_eq] at h
    refine readsAs_loop_stop env cu16 hu (by decide) (by decide) hr ?_ v0 f
    rw [decodeKind, hu]
    exact (readsAs_readString cu16 h).map _
  · cases h

theorem loopRoundTrip_array {xs : List Value} (ih : ∀ x ∈ xs, LoopRoundTrip env cu16 x) :
    LoopRoundTrip env cu16 (.array xs) := by
  intro t opt f m p r v0 h hr hf hm
  obtain ⟨f, rfl⟩ : ∃ f', f = f' + 1 := ⟨f - 1, by omega⟩
  simp only [encodableBody, Bool.and_eq_true] at h
  obtain ⟨-, h⟩ := h
  split at h
  · rename_i n et hu
    simp only [Bool.and_eq_true, decide_eq_true_eq] at h
    simp only [encodeBody, canon, TypeEnv.elem, hu]
    simp only [Value.depth] at hm
    exact readsAs_loop_stop env cu16 hu (by simp [GoType.kind]) (by simp [GoType.kind]) hr
      (readsAs_decodeKind_array env cu16 hu h.1 h.2 (roundTrips_of_mem env cu16 ih (by omega))) v0 f
  · cases h

theorem loopRoundTrip_slice {xs : List Value} (ih : ∀ x ∈ xs, LoopRoundTrip env cu16 x) :
    LoopRoundTrip env cu16 (.slice xs) := by
  intro t opt f m p r v0 h hr hf hm
  obtain ⟨f, rfl⟩ : ∃ f', f = f' + 1 := ⟨f - 1, by omega⟩
  simp only [encodableBody, Bool.and_eq_true] at h
  obtain ⟨-, h⟩ := h
  split at h
  · rename_i et hu
    simp only [Bool.and_eq_true, Bool.or_eq_true, decide_eq_true_eq] at h
    simp only [encodeBody, canon, TypeEnv.elem, hu]
    simp only [Value.depth] at hm
    exact readsAs_loop_stop env cu16 hu (by simp [GoType.kind]) (by simp [GoType.kind]) hr
      (readsAs_decodeKind_slice env cu16 hu h.1.1.1 h.1.1.2 h.1.2 h.2
        (roundTrips_of_mem env cu16 ih (by omega))) v0 f
  · cases h

theorem loopRoundTrip_struct {vs : List Value} (ih : ∀ v ∈ vs, LoopRoundTrip env cu16 v) :
    LoopRoundTrip env cu16 (.struct vs) := by
  intro t opt f m p r v0 h hr hf hm
  obtain ⟨f, rfl⟩ : ∃ f', f = f' + 1 := ⟨f - 1, by omega⟩
  simp only [encodableBody, Bool.and_eq_true] at h
  obtain ⟨-, h⟩ := h
  split at h
  · rename_i fs hu
    simp only [encodeBody, canon, TypeEnv.fieldsOf, hu]
    simp only [Value.depth] at hm
    exact readsAs_loop_stop env cu16 hu (by simp [GoType.kind]) (by simp [GoType.kind]) hr
      (readsAs_decodeKind_struct env cu16 hu h (roundTrips_of_mem env cu16 ih (by omega))) v0 f
  · cases h

/-- A pointer is followed: `indirect` allocates its target, and the loop goes on there. -/
theorem loopRoundTrip_ptr {y : Value} (ih : LoopRoundTrip env cu16 y) :
    LoopRoundTrip env cu16 (.ptr (some y)) := by
  intro t opt f m p r v0 h hr hf hm
  obtain ⟨f, rfl⟩ : ∃ f', f = f' + 1 := ⟨f - 1, by omega⟩
  simp only [encodableBody, Bool.and_eq_true] at h
  obtain ⟨-, h⟩ := h
  split at h
  · rename_i et hu
    simp only [encodeBody, canon, TypeEnv.elem, hu]
    simp only [Value.depth] at hf hm
    refine readsAs_loop_deref env cu16 hu
      (env.methodOf_of_underlying_ptr hu (encodableBody_type env h).1) hr v0 f ?_
    refine ih et opt f m (p ++ [.deref]) _ v0 h ?_ (by omega) (by omega)
    rw [Value.get_append, Value.get_set_self p r _ (by simp [hr])]
    rfl
  · cases h

/-- Every value round-trips from inside `indirect`'s loop, by induction on the value. -/
theorem loopRoundTrip : ∀ x : Value, LoopRoundTrip env cu16 x := by
  refine Value.rec
    (motive_1 := LoopRoundTrip env cu16)
    (motive_2 := fun xs => ∀ x ∈ xs, LoopRoundTrip env cu16 x)
    (motive_3 := fun o => ∀ x ∈ o, LoopRoundTrip env cu16 x)
    (motive_4 := fun _ => True) (motive_5 := fun _ => True)
    ?bool ?int ?uint ?float ?string ?array ?slice ?ptr ?struct ?iface ?other
    ?nil ?cons ?none ?some ?inone ?isome ?mk
  case bool => exact loopRoundTrip_bool env cu16
  case int => exact loopRoundTrip_int env cu16
  case uint => exact loopRoundTrip_uint env cu16
  case float => exact loopRoundTrip_float env cu16
  case string => exact loopRoundTrip_string env cu16
  case array => exact fun _ ih => loopRoundTrip_array env cu16 ih
  case slice => exact fun _ ih => loopRoundTrip_slice env cu16 ih
  case struct => exact fun _ ih => loopRoundTrip_struct env cu16 ih
  case ptr =>
    rintro (_ | y) ih
    · intro t opt f m p r v0 h
      simp [encodableBody] at h
    · exact loopRoundTrip_ptr env cu16 (ih y rfl)
  case iface => intro _ _ t opt f m p r v0 h; simp [encodableBody] at h
  case other => intro _ t opt f m p r v0 h; simp [encodableBody] at h
  case nil => exact fun _ h => nomatch h
  case cons =>
    intro x xs hx hxs y hy
    rcases List.mem_cons.mp hy with rfl | hy
    exacts [hx, hxs y hy]
  case none => exact fun _ h => nomatch h
  case some => exact fun x hx y hy => Option.some_injective _ hy ▸ hx
  case inone => trivial
  case isome => exact fun _ _ => trivial
  case mk => exact fun _ _ _ => trivial

/-! ## The round trip of `Decode` -/

/-- Bin-mode `Decode` into a pointer to a zero value undoes the reference encoding: it reads
exactly the encoding of an encodable value, whatever follows it, and gives back `canon x`. -/
theorem decode_encode (t : GoType) (x : Value) (hx : encodable env newDefaultOption t x = true)
    (n : Nat) (hn : x.depth + 3 ≤ n) (dec : Decoder) (hin : dec.InBounds)
    (hbin : dec.encoding = .bin) (s : List UInt8)
    (h : dec.rest = encode env newDefaultOption t x ++ s) :
    decode env cu16 other n (some (.ptr t, .ptr (some (env.zero t)))) dec =
      .ok (.ptr (some (canon env t x)))
        (dec.setPos (dec.pos + (encode env newDefaultOption t x).length)) := by
  obtain ⟨k, rfl⟩ : ∃ k, n = k + 2 + 1 := ⟨n - 3, by omega⟩
  have hb : encodableBody env newDefaultOption t x = true := by
    simpa [encodable, presenceOk, newDefaultOption] using hx
  have hstep : indirect env (k + 2) (.loc (.ptr t) [] false) false (.ptr (some (env.zero t))) =
      indirectLoop env false (.loc (.ptr t) [] false) (k + 1) (.loc t [.deref] true) false
        (.ptr (some (env.zero t))) := by
    simp only [indirect, TypeEnv.kind, TypeEnv.underlying, GoType.kind, ne_eq, not_true_eq_false,
      false_and, if_false]
    exact indirectLoop_deref env (show env.underlying (.ptr t) = .ptr t from rfl)
      (encodableBody_type env hb).1
      (show (Value.ptr (some (env.zero t))).get [] = some (.ptr (some (env.zero t))) from rfl)
      (fun h => nomatch h) _ (k + 1)
  have hloop := loopRoundTrip env cu16 x t newDefaultOption (k + 1) (k + 2) [.deref]
    (.ptr (some (env.zero t))) (.loc (.ptr t) [] false) hb rfl (by omega) (by omega)
  rw [decode_bin env cu16 other _ _ hbin]
  simp only [decodeWithOptionBin, TypeEnv.kind, TypeEnv.underlying, GoType.kind, if_true]
  rw [decodeBin_eq_resolve env cu16 (o := none) rfl, hstep]
  simpa [encode, withPresence, newDefaultOption] using
    hloop dec s hin hbin (by simpa [encode, withPresence, newDefaultOption] using h)

end

/-- `struct { Len uint8 "sizeof=Items"; Items []uint16 "little"; P *bool "optional" }`. -/
def sizedRecord : GoType :=
  .struct [⟨"Len", true, ⟨"Items", false, .bigEndian, false, false⟩, .uint8⟩,
    ⟨"Items", true, ⟨"", false, .littleEndian, false, false⟩, .slice .uint16⟩,
    ⟨"P", true, ⟨"", false, .bigEndian, true, false⟩, .ptr .bool⟩]

/-- `sizedRecord{2, [1, 2], nil}` is encoded as `02 | 01 00 02 00 | 00`: the size field, the
slice with its count left out, and an absent pointer. -/
theorem decode_encode_sized :
    encodable customEnv newDefaultOption sizedRecord
        (.struct [.uint 2, .slice [.uint 1, .uint 2], .ptr none]) = true ∧
      (Value.struct [.uint 2, .slice [.uint 1, .uint 2], .ptr none]).depth + 3 ≤ 5 ∧
      (newBinDecoder [2, 1, 0, 2, 0, 0, 9] (by decide)).InBounds ∧
      (newBinDecoder [2, 1, 0, 2, 0, 0, 9] (by decide)).encoding = .bin ∧
      (newBinDecoder [2, 1, 0, 2, 0, 0, 9] (by decide)).rest =
        encode customEnv newDefaultOption sizedRecord
          (.struct [.uint 2, .slice [.uint 1, .uint 2], .ptr none]) ++ [9] ∧
      decode customEnv CompactU16.rejecting .failing 5
          (some (.ptr sizedRecord, .ptr (some (customEnv.zero sizedRecord))))
          (newBinDecoder [2, 1, 0, 2, 0, 0, 9] (by decide)) =
        .ok (.ptr (some (canon customEnv sizedRecord
            (.struct [.uint 2, .slice [.uint 1, .uint 2], .ptr none]))))
          ((newBinDecoder [2, 1, 0, 2, 0, 0, 9] (by decide)).setPos
            ((newBinDecoder [2, 1, 0, 2, 0, 0, 9] (by decide)).pos +
              (encode customEnv newDefaultOption sizedRecord
                (.struct [.uint 2, .slice [.uint 1, .uint 2], .ptr none])).length)) :=
  have hx : encodable customEnv newDefaultOption sizedRecord
      (.struct [.uint 2, .slice [.uint 1, .uint 2], .ptr none]) = true := by decide
  have hr : (newBinDecoder [2, 1, 0, 2, 0, 0, 9] (by decide)).rest =
      encode customEnv newDefaultOption sizedRecord
        (.struct [.uint 2, .slice [.uint 1, .uint 2], .ptr none]) ++ [9] := by decide
  ⟨hx, by decide, inBounds_newDecoderWithEncoding _ _ _, rfl, hr,
    decode_encode customEnv CompactU16.rejecting .failing _ _ hx 5 (by decide) _
      (inBounds_newDecoderWithEncoding _ _ _) rfl [9] hr⟩

/-- `struct { Pad [1 << 48]uint8 "skip" }`: `2^48` bytes of memory that encode to no byte. -/
def paddedRecord : GoType :=
  .struct [⟨"Pad", true, ⟨"", true, .bigEndian, false, false⟩, .array (2 ^ 48) .uint8⟩]

/-- Two limits of the round trip.  A float32 signalling NaN comes back quiet: `Decode`
into a `*float32` of the bits `7F 80 00 01` gives `0x7FC00001`, since the Go code passes
the value through a float64.  And two `paddedRecord`s, a slice whose encoding is its count
`02` alone, are refused: `reflect.MakeSlice` of `2^49` bytes panics. -/
theorem decode_encode_limits :
    decode customEnv CompactU16.rejecting .failing 3 (some (.ptr .float32, .ptr (some (.float 0))))
        (newBinDecoder [0x7F, 0x80, 0x00, 0x01] (by decide)) =
      .ok (.ptr (some (.float 0x7FC00001)))
        ((newBinDecoder [0x7F, 0x80, 0x00, 0x01] (by decide)).setPos 4) ∧
    encode customEnv newDefaultOption (.slice paddedRecord)
        (.slice [.struct [.array (List.replicate (2 ^ 48) (.uint 0))],
          .struct [.array (List.replicate (2 ^ 48) (.uint 0))]]) = [2] ∧
    decode customEnv CompactU16.rejecting .failing 3
        (some (.ptr (.slice paddedRecord), .ptr (some (customEnv.zero (.slice paddedRecord)))))
        (newBinDecoder [2] (by decide)) = .panic .allocationSizeOutOfRange :=
  ⟨rfl, rfl, rfl⟩

end BinDecoder
