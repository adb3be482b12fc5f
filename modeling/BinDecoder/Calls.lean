import BinDecoder.Advance

/-!
# The steps of one `decodeBin` call

Equations that cut a call of `decodeBin` at its steps, so that the results about the
decoder never unfold it: `decodeBin_of_indirect` for a directive that is not optional
(`indirect`, then `decodeValue`), `decodeBin_optional` for one that is (`indirect` with
`decodingNull`, the presence byte, and for a present value a second `indirect`), and
`decodeValue_loc` for the dispatch at the value `indirect` stopped at.
-/

namespace BinDecoder

@[simp] theorem resolve_ok_bind {α β : Type} (a : α) (f : α → DecM β) (dec : Decoder) :
    (resolve (some (.ok a)) >>= f) dec = f a dec := rfl

@[simp] theorem resolve_error_bind {α β : Type} (p : Panic) (f : α → DecM β) (dec : Decoder) :
    (resolve (some (.error p)) >>= f) dec = .panic p := rfl

@[simp] theorem DecM.map_apply {α β : Type} (f : α → β) (x : DecM α) (dec : Decoder) :
    (f <$> x) dec = (x dec).bind fun a => pure (f a) := rfl

@[simp] theorem DecM.panic_apply {α : Type} (p : Panic) (dec : Decoder) :
    (DecM.panic p : DecM α) dec = .panic p := rfl

@[simp] theorem DecM.fail_apply {α : Type} (e : DecodeError) (dec : Decoder) :
    (DecM.fail e : DecM α) dec = .err e dec := rfl

@[simp] theorem Outcome.bind_pure {α : Type} (o : Outcome α) : o.bind (fun a => pure a) = o := by
  cases o <;> rfl

section

variable (env : TypeEnv) (cu16 : CompactU16)

/-- A call under a directive that is not optional: `indirect`, then the custom decoder
or the dispatch at the value it stopped at. -/
theorem decodeBin_of_indirect {n : Nat} {t : GoType} {s : Bool} {o : Option FieldOption}
    {x : Value} {u : Option (Unmarshaler × List Step)} {rv : RValue} {r : Value}
    (ho : (o.getD newDefaultOption).optionalField = false)
    (h : indirect env n (.loc t [] s) false x = some (.ok ⟨u, rv, r⟩)) (dec : Decoder) :
    decodeBin env cu16 (n + 1) t s o x dec =
      decodeValue env cu16 (decodeBin env cu16 n) (o.getD newDefaultOption) u rv r dec := by
  simp only [decodeBin, ho, h, resolve_ok_bind, Bool.false_eq_true, if_false]

/-- A call under an optional directive: `indirect` stops early, then the presence byte
decides between the zero value and a second `indirect`. -/
theorem decodeBin_optional {n : Nat} {t : GoType} {s : Bool} {o : Option FieldOption}
    {x : Value} {u : Option (Unmarshaler × List Step)} {rv : RValue} {r : Value}
    (ho : (o.getD newDefaultOption).optionalField = true)
    (h : indirect env n (.loc t [] s) true x = some (.ok ⟨u, rv, r⟩)) (dec : Decoder) :
    decodeBin env cu16 (n + 1) t s o x dec =
      (readPresence rv >>= fun b =>
        if b = 0 then setZero env rv r
        else resolve (indirect env n rv false r) >>= fun i =>
          decodeValue env cu16 (decodeBin env cu16 n) (o.getD newDefaultOption)
            i.unmarshaler i.value i.root) dec := by
  simp only [decodeBin, ho, h, resolve_ok_bind, if_true]

/-- The dispatch at the value `indirect` stopped at, written back where it was read. -/
theorem decodeValue_loc (rec : DecodeFn) (opt : FieldOption) (t : GoType) (p : List Step)
    (s : Bool) (r : Value) (dec : Decoder) :
    decodeValue env cu16 rec opt none (.loc t p s) r dec =
      ((decodeKind env cu16 rec opt t (r.at p)) dec).bind fun y => pure (r.set p y) := rfl

/-- A settable value that is neither a pointer nor an interface, of a type whose pointer
type has no custom decoder, under a directive that is not optional: the dispatch on its
kind. -/
theorem decodeBin_plain {t : GoType} (hp : env.kind t ≠ .ptr) (hi : env.kind t ≠ .interface)
    (hm : env.methodOf (.ptr t) = none) {o : FieldOption} (ho : o.optionalField = false)
    (x : Value) (n : Nat) (dec : Decoder) :
    decodeBin env cu16 (n + 3) t true (some o) x dec =
      decodeKind env cu16 (decodeBin env cu16 (n + 2)) o t x dec := by
  rw [decodeBin_of_indirect env cu16 (o := some o) ho (indirect_plain env hp hi hm [] false n x),
    decodeValue_loc]
  exact Outcome.bind_pure _

end

end BinDecoder
