import BinDecoder.DecodeBin
import BinDecoder.Indirect

/-!
# The decoder only moves forward

`advances_decodeBin`: however it ends, a call of `decodeBin` leaves the buffer and the
encoding as they were and the cursor at or after where it was, never past the end of the
buffer, provided the custom decoders of the program do the same (`MethodsAdvance`; they
are user code, outside `src/`).  The proof follows the cut of `decodeBin` into
`decodeValue`, `decodeKind`, `decodeElems` and `decodeFields`: each step is built from
the reads of `BinDecoder.Reads`, which advance, and from `indirect`, `sizeof` and the
writes into the destination, which do not touch the session.
-/

namespace BinDecoder

open Decoder

/-- The custom decoders of a program only move the cursor forward. -/
def TypeEnv.MethodsAdvance (env : TypeEnv) : Prop :=
  ∀ t u, env.methodOf t = some u → ∀ x, Advances (u.unmarshalBinary x)

/-- A step after `indirect` advances if it does for every result `indirect` can give. -/
theorem Advances.resolve_bind {α β : Type} {o : Option (Except Panic α)} {f : α → DecM β}
    (hf : ∀ a, o = some (.ok a) → Advances (f a)) : Advances (resolve o >>= f) := by
  intro dec hin d hd
  rcases o with _ | _ | a
  · cases hd
  · cases hd
  · exact hf a rfl dec hin d hd

section

variable (env : TypeEnv) (cu16 : CompactU16)

theorem advances_readPresence (rv : RValue) : Advances (readPresence rv) := by
  intro dec hin d hd
  apply advances_readByte dec hin d
  unfold readPresence at hd
  cases h : readByte dec with
  | err e d' => rw [h] at hd; cases ht : rv.type? <;> simp_all [Outcome.dec?]
  | _ => rw [h] at hd; simpa using hd

theorem advances_unread : Advances unread := by
  intro dec hin d hd
  simp only [unread_of_inBounds hin, Outcome.dec?, Option.mem_def, Option.some.injEq] at hd
  exact hd ▸ Advances.stay dec

theorem advances_setZero (rv : RValue) (r : Value) : Advances (setZero env rv r) := by
  unfold setZero
  split
  · exact Advances.pure _
  all_goals exact Advances.panic _

theorem advances_sizeof (t : GoType) (v : Value) : Advances (sizeof env t v) := by
  rcases sizeof_cases env t v with ⟨i, h⟩ | h <;> rw [h]
  exacts [Advances.pure _, Advances.panic _]

/-- `reflect.MakeSlice` reads nothing. -/
theorem advances_makeSlice (et : GoType) (l : Int) :
    Advances (makeSlice env et l) := by
  rcases makeSlice_cases env et l with ⟨p, h, -⟩ | ⟨-, h⟩ <;> rw [h]
  exacts [Advances.panic _, Advances.pure _]

variable {env} {rec : DecodeFn} (hrec : ∀ t s o x, Advances (rec t s o x))
include hrec

theorem advances_decodeElems (et : GoType) (opt : FieldOption) :
    ∀ xs, Advances (decodeElems rec et opt xs)
  | [] => Advances.pure _
  | _ :: xs => (hrec _ _ _ _).bind fun _ =>
    (advances_decodeElems et opt xs).bind fun _ => Advances.pure _

theorem advances_decodeFields :
    ∀ fs vs m seen, Advances (decodeFields env rec fs vs m seen)
  | [], _, _, _ => Advances.pure _
  | _ :: _, [], _, _ => Advances.pure _
  | f :: fs, _ :: vs, _, seen => by
    have ih := advances_decodeFields fs vs
    rw [decodeFields]
    by_cases hskip : f.tag.skip = true
    · rw [if_pos hskip]; exact (ih _ _).map _
    rw [if_neg hskip]
    by_cases hord : (!f.tag.binaryExtension && seen) = true
    · rw [if_pos hord]; exact Advances.panic _
    rw [if_neg hord]
    refine Advances.bind ?_ fun exhausted => ?_
    · split
      · exact advances_unread.map _
      · exact Advances.pure _
    · split
      · exact (ih _ _).map _
      · refine (hrec _ _ _ _).bind fun v => Advances.bind ?_ fun m => (ih _ _).map _
        split
        · exact (advances_sizeof env _ v).map _
        · exact Advances.pure _

theorem advances_decodeKind (opt : FieldOption) (t : GoType) (x : Value) :
    Advances (decodeKind env cu16 rec opt t x) := by
  unfold decodeKind
  generalize env.underlying t = u
  cases u
  case string => exact (advances_readString cu16).map _
  case uint8 => exact advances_readByte.map _
  case int8 => exact advances_readInt8.map _
  case int16 => exact (advances_readInt16 _).map _
  case int32 => exact (advances_readInt32 _).map _
  case int64 => exact (advances_readInt64 _).map _
  case uint16 => exact (advances_readUint16 _).map _
  case uint32 => exact (advances_readUint32 _).map _
  case uint64 => exact (advances_readUint64 _).map _
  case float32 => exact (advances_readFloat32 _).map _
  case float64 => exact (advances_readFloat64 _).map _
  case bool => exact advances_readBool.map _
  case iface => exact Advances.pure _
  case array => exact (advances_decodeElems hrec _ _ _).map _
  case slice =>
    refine Advances.bind ?_ fun l =>
      (advances_makeSlice env _ l).bind fun _ => (advances_decodeElems hrec _ _ _).map _
    split
    · exact Advances.pure _
    · exact advances_readUvarint64.map _
  case struct => exact (advances_decodeFields hrec _ _ _ _).map _
  all_goals exact Advances.fail _

theorem advances_decodeValue (opt : FieldOption) {u : Option (Unmarshaler × List Step)}
    (hu : ∀ um p, u = some (um, p) → ∀ x, Advances (um.unmarshalBinary x)) (rv : RValue)
    (r : Value) : Advances (decodeValue env cu16 rec opt u rv r) := by
  unfold decodeValue
  split
  · exact (hu _ _ rfl _).map _
  · exact (advances_decodeKind cu16 hrec _ _ _).map _
  · exact Advances.fail _
  · exact Advances.panic _

end

/-- The dispatch after `indirect` advances, whatever `indirect` found, when the custom
decoders of the program do. -/
theorem advances_decodeValue_of_indirect {env : TypeEnv} (cu16 : CompactU16)
    (hm : env.MethodsAdvance) {rec : DecodeFn} (hrec : ∀ t s o x, Advances (rec t s o x))
    {fuel : Nat} {v : RValue} {dn : Bool} {r : Value} {i : Indirection}
    (h : indirect env fuel v dn r = some (.ok i)) (opt : FieldOption) :
    Advances (decodeValue env cu16 rec opt i.unmarshaler i.value i.root) := by
  refine advances_decodeValue cu16 hrec opt (fun um p hu x => ?_) _ _
  obtain ⟨u, rv, r'⟩ := i
  cases hu
  obtain ⟨t, ht⟩ := indirect_unmarshaler_mem env h
  exact hm t um ht x

/-- However it ends, `decodeBin` leaves the buffer alone and moves the cursor forward over
unread bytes only. -/
theorem advances_decodeBin {env : TypeEnv} (cu16 : CompactU16) (hm : env.MethodsAdvance) :
    ∀ n t s o x, Advances (decodeBin env cu16 n t s o x)
  | 0, _, _, _, _ => fun _ _ _ hd => by cases hd
  | n + 1, t, s, o, x => by
    have hrec := advances_decodeBin cu16 hm n
    simp only [decodeBin]
    refine Advances.resolve_bind fun ⟨u, rv, r⟩ hres => ?_
    split
    · refine (advances_readPresence rv).bind fun b => ?_
      split
      · exact advances_setZero env rv r
      · exact Advances.resolve_bind fun ⟨u', rv', r'⟩ hres' =>
          advances_decodeValue_of_indirect cu16 hm hrec hres' _
    · exact advances_decodeValue_of_indirect cu16 hm hrec hres _

/-- The decoders of the other two encodings keep the cursor in bounds, as every method of
the session in the source does. -/
def OtherDecoders.Advance (other : OtherDecoders) : Prop :=
  ∀ v, Advances (other.borsh v) ∧ Advances (other.compactU16 v)

theorem OtherDecoders.advance_failing : OtherDecoders.failing.Advance :=
  fun _ => ⟨Advances.fail _, Advances.fail _⟩

theorem advances_decode {env : TypeEnv} (cu16 : CompactU16) (hm : env.MethodsAdvance)
    {other : OtherDecoders} (ho : other.Advance) (fuel : Nat) (v : Option (GoType × Value)) :
    Advances (decode env cu16 other fuel v) := by
  have hbin : Advances (decodeWithOptionBin env cu16 fuel v none) := by
    unfold decodeWithOptionBin
    split
    · split
      · exact advances_decodeBin cu16 hm _ _ _ _ _
      · exact Advances.fail _
    · exact Advances.fail _
  intro dec
  cases h : dec.encoding with
  | bin => rw [decode_bin env cu16 other fuel v h]; exact hbin dec
  | borsh => simp only [decode, h]; exact (ho v).1 dec
  | compactU16 => simp only [decode, h]; exact (ho v).2 dec

end BinDecoder
