import BinDecoder.Locality

/-!
# Bin-mode `Decode` depends only on the bytes it consumes

`decode_prefix`: decoding from a position `p` of a buffer `d` succeeds with a value at a
position `q` exactly when decoding from `p` of `d ++ s` does, with `q` within `d`.
So messages can be decoded back to back from one buffer.  This holds when the decode
reaches only plain types (`GoType.plainIn`): no custom decoder, whose reads are user code,
and no `binary_extension` field, whose test asks whether any byte is left at all.  The
types the decode reaches are the destination's type, the types it names
(`TypeEnv.PlainOn`), and the dynamic types of the interface values the destination
already holds (`Value.plainIn`), since `indirect` follows a non-nil interface into the
pointer it holds.  `decode_extension_in_interface` shows that the last ones count: a
destination type with no extension field can still reach one through an interface.

The proof is `exact_decodeBin`: one call of `decodeBin` on a plain destination is
`Exact`, that is, it reads the bytes it consumes as the same value wherever they stand.
It follows the cut of `decodeBin` into `indirect`, `decodeValue`, `decodeKind`,
`decodeElems` and `decodeFields`, with the reads of `BinDecoder.Locality`.  Along the way
`indirect` keeps the destination plain (`indirect_plainIn`): it only allocates zero
values, and zero values hold no interface value (`TypeEnv.plainIn_zero`).
-/

namespace BinDecoder

open Decoder

/-! ## Plain types and values -/

mutual
/-- `t` names only the defined types of `S` and has no `binary_extension` field. -/
def GoType.plainIn (S : List String) : GoType → Bool
  | .named n => decide (n ∈ S)
  | .array _ e | .ptr e | .slice e => e.plainIn S
  | .struct fs => GoType.plainFieldsIn S fs
  | _ => true

/-- `GoType.plainIn` of the fields of a struct type, none of them a `binary_extension`
field. -/
def GoType.plainFieldsIn (S : List String) : List (Field GoType) → Bool
  | [] => true
  | f :: fs => !f.tag.binaryExtension && f.type.plainIn S && GoType.plainFieldsIn S fs
end

mutual
/-- Every interface value inside `x` holds a value of a type plain in `S`, itself plain. -/
def Value.plainIn (S : List String) : Value → Bool
  | .array xs | .slice xs | .struct xs => Value.plainListIn S xs
  | .ptr (some y) => y.plainIn S
  | .iface (some (dt, y)) => dt.plainIn S && y.plainIn S
  | _ => true

/-- `Value.plainIn` of each value of a list. -/
def Value.plainListIn (S : List String) : List Value → Bool
  | [] => true
  | x :: xs => x.plainIn S && Value.plainListIn S xs
end

/-- The defined types of `S` have no custom decoder, and their underlying types are plain
in `S`. -/
def TypeEnv.PlainOn (env : TypeEnv) (S : List String) : Prop :=
  ∀ n ∈ S, (env.decl n).unmarshaler.isNone = true ∧ (env.decl n).underlying.plainIn S = true

/-- A cursor of `indirect` at a type plain in `S`. -/
def RValue.plainIn (S : List String) : RValue → Bool
  | .loc t _ _ | .addr t _ => t.plainIn S
  | .invalid => true

section Plain

variable {S : List String}

theorem Value.plainListIn_iff {xs : List Value} :
    Value.plainListIn S xs = true ↔ ∀ x ∈ xs, x.plainIn S = true := by
  induction xs with
  | nil => simp [Value.plainListIn]
  | cons x xs ih => simp [Value.plainListIn, ih]

theorem Value.plainIn_elems {x : Value} (hx : x.plainIn S = true) :
    ∀ y ∈ x.elems, y.plainIn S = true := by
  cases x <;> first | exact Value.plainListIn_iff.1 hx | exact fun _ h => nomatch h

theorem Value.plainIn_fields {x : Value} (hx : x.plainIn S = true) :
    ∀ y ∈ x.fields, y.plainIn S = true := by
  cases x <;> first | exact Value.plainListIn_iff.1 hx | exact fun _ h => nomatch h

/-- What a path of a plain value leads to is plain. -/
theorem Value.plainIn_get {z : Value} :
    ∀ (p : List Step) (r : Value), r.plainIn S = true → r.get p = some z → z.plainIn S = true := by
  intro p
  induction p with
  | nil => intro r hr h; cases h; exact hr
  | cons st p ih =>
    intro r hr h
    rcases st with _ | _ <;> rcases r with _ | _ | _ | _ | _ | _ | _ | (_ | x) | _ | (_ | ⟨dt, x⟩) | _ <;>
      first | cases h | skip
    · exact ih x hr h
    · exact ih x (Bool.and_eq_true_iff.1 hr).2 h

theorem Value.plainIn_at {r : Value} (hr : r.plainIn S = true) (p : List Step) :
    (r.at p).plainIn S = true := by
  unfold Value.at
  cases h : r.get p
  · rfl
  · exact Value.plainIn_get p r hr h

/-- Writing a plain value into a plain value keeps it plain. -/
theorem Value.plainIn_set {y : Value} (hy : y.plainIn S = true) :
    ∀ (p : List Step) (r : Value), r.plainIn S = true → (r.set p y).plainIn S = true := by
  intro p
  induction p with
  | nil => intro r _; exact hy
  | cons st p ih =>
    intro r hr
    rcases st with _ | _ <;> rcases r with _ | _ | _ | _ | _ | _ | _ | (_ | x) | _ | (_ | ⟨dt, x⟩) | _ <;>
      simp only [Value.set] <;> try exact hr
    · exact ih x hr
    · have hr := Bool.and_eq_true_iff.1 hr
      exact Bool.and_eq_true_iff.2 ⟨hr.1, ih x hr.2⟩

theorem zeroFields_eq_map (nz : String → Value) (fs : List (Field GoType)) :
    zeroFields nz fs = (fs.map (·.type)).map (zeroWith nz) := by
  induction fs with
  | nil => rfl
  | cons f fs ih => simp only [zeroFields, ih, List.map_cons]

variable (env : TypeEnv)

theorem TypeEnv.underlying_ne_named' (t : GoType) (m : String) : env.underlying t ≠ .named m := by
  cases t <;> simp [TypeEnv.underlying, env.underlying_ne_named]

/-- A zero value is an array of zero values, a struct of zero values, or holds no
value at all. -/
theorem TypeEnv.zero_cases (S : List String) (t : GoType) :
    (∃ n et, env.zero t = .array (List.replicate n (env.zero et))) ∨
    (∃ ts : List GoType, env.zero t = .struct (ts.map env.zero)) ∨
    (env.zero t).plainIn S = true := by
  rw [← env.zero_underlying]
  have hn := env.underlying_ne_named' t
  generalize env.underlying t = u at hn ⊢
  cases u with
  | array n et => exact .inl ⟨n, et, rfl⟩
  | struct fs => exact .inr (.inl ⟨_, congrArg Value.struct (zeroFields_eq_map _ fs)⟩)
  | named m => exact absurd rfl (hn m)
  | _ => exact .inr (.inr rfl)

/-- Zero values are plain: they hold no interface value. -/
theorem TypeEnv.plainIn_zero (t : GoType) : (env.zero t).plainIn S = true := by
  suffices h : ∀ x : Value, (∃ t, env.zero t = x) → x.plainIn S = true from h _ ⟨t, rfl⟩
  refine Value.rec
    (motive_1 := fun x => (∃ t, env.zero t = x) → x.plainIn S = true)
    (motive_2 := fun xs => ∀ x ∈ xs, (∃ t, env.zero t = x) → x.plainIn S = true)
    (motive_3 := fun _ => True) (motive_4 := fun _ => True) (motive_5 := fun _ => True)
    ?bool ?int ?uint ?float ?string ?array ?slice ?ptr ?struct ?iface ?other
    ?nil ?cons ?none ?some ?inone ?isome ?mk
  case array =>
    rintro xs ih ⟨t, h⟩
    rcases env.zero_cases S t with ⟨n, et, h'⟩ | ⟨ts, h'⟩ | h' <;> rw [h] at h'
    · cases h'
      exact Value.plainListIn_iff.2 fun y hy => ih y hy ⟨et, (List.eq_of_mem_replicate hy).symm⟩
    · cases h'
    · exact h'
  case struct =>
    rintro xs ih ⟨t, h⟩
    rcases env.zero_cases S t with ⟨n, et, h'⟩ | ⟨ts, h'⟩ | h' <;> rw [h] at h'
    · cases h'
    · cases h'
      exact Value.plainListIn_iff.2 fun y hy => by
        obtain ⟨t', -, rfl⟩ := List.mem_map.1 hy
        exact ih _ hy ⟨t', rfl⟩
    · exact h'
  case slice | ptr | iface =>
    rintro _ - ⟨t, h⟩
    rcases env.zero_cases S t with ⟨n, et, h'⟩ | ⟨ts, h'⟩ | h' <;> rw [h] at h'
    · cases h'
    · cases h'
    · exact h'
  case bool | int | uint | float | string | other => exact fun _ _ => rfl
  case nil => exact fun _ h => nomatch h
  case cons =>
    intro x xs hx hxs y hy
    rcases List.mem_cons.mp hy with rfl | hy
    exacts [hx, hxs y hy]
  case none | inone => trivial
  case some | isome => exact fun _ _ => trivial
  case mk => exact fun _ _ _ => trivial

variable {env} (hS : env.PlainOn S)
include hS

theorem GoType.plainIn_underlying {t : GoType} (ht : t.plainIn S = true) :
    (env.underlying t).plainIn S = true := by
  cases t with
  | named n => exact (hS n (by simpa [GoType.plainIn] using ht)).2
  | _ => exact ht

/-- A plain type has no custom decoder. -/
theorem TypeEnv.methodOf_of_plainIn {t : GoType} (ht : t.plainIn S = true) :
    env.methodOf t = none := by
  unfold TypeEnv.methodOf
  split
  · rename_i n
    simpa using (hS n (by simpa [GoType.plainIn] using ht)).1
  · rfl

theorem RValue.plainIn_elem {v : RValue} {r : Value} (hv : v.plainIn S = true)
    (hr : r.plainIn S = true) : (v.elem env r).plainIn S = true := by
  cases v with
  | invalid => rfl
  | addr t p => exact hv
  | loc t p s =>
    have hu := GoType.plainIn_underlying hS hv
    simp only [RValue.elem]
    split
    · next et _ heq _ => rw [heq] at hu; exact hu
    · next dt _ _ hget =>
      exact (Bool.and_eq_true_iff.1 (Value.plainIn_get p r hr hget)).1
    · rfl

omit hS in
theorem RValue.plainIn_allocate {v : RValue} {r r' : Value} (hr : r.plainIn S = true)
    (h : v.allocate env r = .ok r') : r'.plainIn S = true := by
  unfold RValue.allocate at h
  split_ifs at h
  · split at h
    · cases h; exact Value.plainIn_set (y := .ptr (some _)) (env.plainIn_zero _) _ _ hr
    · cases h
  · cases h; exact hr

theorem RValue.type_bind_methodOf {v : RValue} (hv : v.plainIn S = true) :
    v.type?.bind env.methodOf = none := by
  cases v with
  | invalid => rfl
  | loc t p s => exact TypeEnv.methodOf_of_plainIn hS hv
  | addr t p => exact TypeEnv.methodOf_of_plainIn hS (t := .ptr t) hv

omit hS in
theorem RValue.enterInterface_eq_some {v e : RValue} {r : Value} {dn : Bool}
    (h : v.enterInterface env r dn = some e) : e = v.elem env r := by
  simp only [RValue.enterInterface] at h
  split_ifs at h
  exact (Option.some.inj h).symm

/-- `indirect`'s loop, from a plain cursor in a plain destination, finds no custom decoder
and stops at a plain cursor in a plain destination. -/
theorem indirectLoop_plainIn {dn : Bool} {v0 : RValue} (h0 : v0.plainIn S = true) :
    ∀ (n : Nat) (v : RValue) (hA : Bool) (r : Value) (i : Indirection),
      v.plainIn S = true → r.plainIn S = true → indirectLoop env dn v0 n v hA r = some (.ok i) →
        i.unmarshaler = none ∧ i.value.plainIn S = true ∧ i.root.plainIn S = true
  | 0, _, _, _, _, _, _, h => by cases h
  | n + 1, v, hA, r, i, hv, hr, h => by
    simp only [indirectLoop] at h
    split at h
    · next e he =>
      exact indirectLoop_plainIn h0 n e false r i
        (RValue.enterInterface_eq_some he ▸ RValue.plainIn_elem hS hv hr) hr h
    · split_ifs at h
      · cases h; exact ⟨rfl, hv, hr⟩
      · cases h; exact ⟨rfl, hv, hr⟩
      all_goals
        split at h
        · cases h
        rename_i r' hr'
        have hr'' := RValue.plainIn_allocate hr hr'
        simp only [RValue.type_bind_methodOf hS hv] at h
      · exact indirectLoop_plainIn h0 n v0 false r' i h0 hr'' h
      · exact indirectLoop_plainIn h0 n _ false r' i (RValue.plainIn_elem hS hv hr'') hr'' h

theorem indirect_plainIn {fuel : Nat} {v : RValue} {dn : Bool} {r : Value} {i : Indirection}
    (hv : v.plainIn S = true) (hr : r.plainIn S = true)
    (h : indirect env fuel v dn r = some (.ok i)) :
    i.unmarshaler = none ∧ i.value.plainIn S = true ∧ i.root.plainIn S = true := by
  unfold indirect at h
  split at h
  · cases h
  · split_ifs at h
    · exact indirectLoop_plainIn hS hv _ (.addr _ _) _ _ _ hv hr h
    · exact indirectLoop_plainIn hS hv _ _ _ _ _ hv hr h
  · exact indirectLoop_plainIn hS hv _ _ _ _ _ hv hr h

end Plain

/-! ## One call of `decodeBin` reads exactly what it consumes -/

section Exact

variable (env : TypeEnv) (cu16 : CompactU16)

theorem exact_setZero (rv : RValue) (r : Value) : Exact (setZero env rv r) := by
  unfold setZero
  split
  · exact Exact.pure _
  all_goals exact Exact.panic _

theorem exact_sizeof (t : GoType) (v : Value) : Exact (sizeof env t v) := by
  rcases sizeof_cases env t v with ⟨i, h⟩ | h <;> rw [h]
  exacts [Exact.pure _, Exact.panic _]

variable {env} {S : List String} (hS : env.PlainOn S) {rec : DecodeFn}
  (hrec : ∀ t s o x, t.plainIn S = true → x.plainIn S = true → Exact (rec t s o x))
include hS hrec

omit hS in
theorem exact_decodeElems {et : GoType} (het : et.plainIn S = true) (opt : FieldOption) :
    ∀ xs : List Value, (∀ x ∈ xs, x.plainIn S = true) → Exact (decodeElems rec et opt xs)
  | [], _ => Exact.pure _
  | x :: xs, h => (hrec _ _ _ _ het (h x (List.mem_cons_self x xs))).bind fun _ =>
    (exact_decodeElems het opt xs fun y hy => h y (List.mem_cons_of_mem x hy)).bind fun _ =>
      Exact.pure _

omit hS in
/-- The loop of `decodeStruct` over fields that are not `binary_extension` fields: it
never asks whether bytes are left. -/
theorem exact_decodeFields :
    ∀ (fs : List (Field GoType)) (vs : List Value) m seen, GoType.plainFieldsIn S fs = true →
      (∀ v ∈ vs, v.plainIn S = true) → Exact (decodeFields env rec fs vs m seen)
  | [], _, _, _, _, _ => Exact.pure _
  | _ :: _, [], _, _, _, _ => Exact.pure _
  | f :: fs, v :: vs, _, seen, hfs, hvs => by
    simp only [GoType.plainFieldsIn, Bool.and_eq_true, Bool.not_eq_true'] at hfs
    obtain ⟨⟨hext, hty⟩, hrest⟩ := hfs
    have ih := fun m seen =>
      exact_decodeFields fs vs m seen hrest fun y hy => hvs y (List.mem_cons_of_mem v hy)
    rw [decodeFields]
    by_cases hskip : f.tag.skip = true
    · rw [if_pos hskip]; exact (ih _ _).map _
    rw [if_neg hskip]
    by_cases hord : (!f.tag.binaryExtension && seen) = true
    · rw [if_pos hord]; exact Exact.panic _
    rw [if_neg hord, if_neg (by simp [hext])]
    refine (Exact.pure false).bind fun exhausted => ?_
    split
    · exact (ih _ _).map _
    · refine (hrec _ _ _ _ hty (hvs v (List.mem_cons_self v vs))).bind fun v' =>
        Exact.bind ?_ fun m => (ih _ _).map _
      split
      · exact (exact_sizeof env _ v').map _
      · exact Exact.pure _

theorem exact_decodeKind (opt : FieldOption) {t : GoType} (ht : t.plainIn S = true) {x : Value}
    (hx : x.plainIn S = true) : Exact (decodeKind env cu16 rec opt t x) := by
  have hu := GoType.plainIn_underlying hS ht
  unfold decodeKind
  generalize env.underlying t = u at hu
  cases u
  case string => exact (exact_readString cu16).map _
  case uint8 => exact exact_readByte.map _
  case int8 => exact exact_readInt8.map _
  case int16 => exact (exact_readInt16 _).map _
  case int32 => exact (exact_readInt32 _).map _
  case int64 => exact (exact_readInt64 _).map _
  case uint16 => exact (exact_readFixed _ (by norm_num) _).map _
  case uint32 => exact (exact_readFixed _ (by norm_num) _).map _
  case uint64 => exact (exact_readUint64 _).map _
  case float32 => exact (exact_readFloat32 _).map _
  case float64 => exact (exact_readFloat64 _).map _
  case bool => exact exact_readBool.map _
  case iface => exact Exact.pure _
  case array =>
    simp only [GoType.plainIn] at hu
    exact (exact_decodeElems hrec hu opt _ (Value.plainIn_elems hx)).map _
  case slice =>
    simp only [GoType.plainIn] at hu
    refine Exact.bind ?_ fun l => ?_
    · split
      · exact Exact.pure _
      · exact exact_readUvarint64.map _
    · rcases makeSlice_cases env _ l with ⟨p, hp, -⟩ | ⟨-, hp⟩
      · rw [hp, DecM.panic_bind]
        exact Exact.panic _
      · rw [hp, DecM.pure_bind]
        refine (exact_decodeElems hrec hu opt _ fun y hy => ?_).map _
        rw [List.eq_of_mem_replicate hy]
        exact env.plainIn_zero _
  case struct fs =>
    simp only [GoType.plainIn] at hu
    exact (exact_decodeFields hrec fs _ _ _ hu (Value.plainIn_fields hx)).map _
  all_goals exact Exact.fail _

theorem exact_decodeValue (opt : FieldOption) {rv : RValue} (hrv : rv.plainIn S = true)
    {r : Value} (hr : r.plainIn S = true) : Exact (decodeValue env cu16 rec opt none rv r) := by
  cases rv with
  | loc t p s => exact (exact_decodeKind cu16 hS hrec opt hrv (Value.plainIn_at hr p)).map _
  | addr t p => exact Exact.fail _
  | invalid => exact Exact.panic _

end Exact

section Decode

variable {env : TypeEnv} (cu16 : CompactU16) {S : List String} (hS : env.PlainOn S)
  (other : OtherDecoders)
include hS

/-- A call of `decodeBin` on a plain destination reads exactly the bytes it consumes. -/
theorem exact_decodeBin : ∀ n t s o x, t.plainIn S = true → x.plainIn S = true →
    Exact (decodeBin env cu16 n t s o x)
  | 0, _, _, _, _, _, _ => fun _ _ _ _ _ h => by cases h
  | n + 1, t, s, o, x, ht, hx => by
    have hrec := exact_decodeBin n
    simp only [decodeBin]
    refine Exact.resolve_bind fun ⟨u, rv, r⟩ hres => ?_
    obtain ⟨rfl, hrv, hr⟩ := indirect_plainIn hS (v := .loc t [] s) ht hx hres
    split
    · refine (exact_readPresence rv).bind fun b => ?_
      split
      · exact exact_setZero env rv r
      · refine Exact.resolve_bind fun ⟨u', rv', r'⟩ hres' => ?_
        obtain ⟨rfl, hrv', hr'⟩ := indirect_plainIn hS hrv hr hres'
        exact exact_decodeValue cu16 hS hrec _ hrv' hr'
    · exact exact_decodeValue cu16 hS hrec _ hrv hr

theorem exact_decode (fuel : Nat) {t : GoType} {x : Value} (ht : t.plainIn S = true)
    (hx : x.plainIn S = true) : Exact (decode env cu16 other fuel (some (t, x))) := by
  refine Exact.congr_bin (fun _ hbin => decode_bin env cu16 other fuel _ hbin) ?_
  simp only [decodeWithOptionBin]
  split
  · exact exact_decodeBin cu16 hS _ _ _ _ _ ht hx
  · exact Exact.fail _

/-! ## Decoding from a prefix of the buffer -/

/-- Bin-mode `Decode` of a plain destination depends only on the bytes it consumes: from
a position `p` within a buffer `d`, it succeeds with a value and ends at `q` exactly when
it does so from `p` in `d ++ s` and `q` lies within `d`. -/
theorem decode_prefix (fuel : Nat) {t : GoType} {x : Value} (ht : t.plainIn S = true)
    (hx : x.plainIn S = true) (s : List UInt8) {dec dec' : Decoder}
    (hdata : dec'.data = dec.data ++ s) (hpos : dec'.pos = dec.pos)
    (henc : dec'.encoding = dec.encoding) (hin : dec.InBounds) (hbin : dec.encoding = .bin)
    (a : Value) (q : Int) :
    decode env cu16 other fuel (some (t, x)) dec = .ok a (dec.setPos q) ↔
      decode env cu16 other fuel (some (t, x)) dec' = .ok a (dec'.setPos q) ∧
        q ≤ dec.data.length := by
  have hl := length_rest hin
  have hin' : dec'.InBounds := ⟨hpos ▸ hin.1, by rw [hpos, hdata, List.length_append]; push_cast; linarith [hin.2]⟩
  have hrest : dec'.rest = dec.rest ++ s := by
    rw [rest, hdata, hpos, List.drop_append_of_le_length (by have := hin.2; omega), ← rest]
  have hex := exact_decode cu16 hS other fuel ht hx
  constructor
  · intro h
    obtain ⟨k, hk, hq, hr⟩ := hex dec a _ hin hbin h
    have hq' : q = dec.pos + k := congrArg Decoder.pos hq
    refine ⟨?_, by omega⟩
    rw [hr dec' (dec.rest.drop k ++ s) hin' (henc.trans hbin)
      (by rw [hrest, ← List.append_assoc, List.take_append_drop]),
      List.length_take, min_eq_left hk, hpos, hq']
  · rintro ⟨h, hq⟩
    obtain ⟨k, -, hq', hr⟩ := hex dec' a _ hin' (henc.trans hbin) h
    have hq'' : q = dec.pos + k := by rw [← hpos]; exact congrArg Decoder.pos hq'
    have hk : k ≤ dec.rest.length := by omega
    rw [hrest, List.take_append_of_le_length hk] at hr
    rw [hr dec _ hin hbin (List.take_append_drop k dec.rest).symm, List.length_take,
      min_eq_left hk, hq'']

end Decode

/-- A `uint16` read from byte 1 of `[9, 1, 2]` ends at byte 3 there, and so it does with a
byte `7` appended. -/
theorem decode_prefix_uint16 :
    customEnv.PlainOn [] ∧ (GoType.ptr .uint16).plainIn [] = true ∧
      (Value.ptr (some (.uint 0))).plainIn [] = true ∧
      ((newBinDecoder [9, 1, 2, 7] (by decide)).setPos 1).data =
        ((newBinDecoder [9, 1, 2] (by decide)).setPos 1).data ++ [7] ∧
      ((newBinDecoder [9, 1, 2] (by decide)).setPos 1).InBounds ∧
      (decode customEnv .rejecting .failing 3 (some (.ptr .uint16, .ptr (some (.uint 0))))
          ((newBinDecoder [9, 1, 2] (by decide)).setPos 1) =
          .ok (.ptr (some (.uint 258))) ((newBinDecoder [9, 1, 2] (by decide)).setPos 3) ↔
        decode customEnv .rejecting .failing 3 (some (.ptr .uint16, .ptr (some (.uint 0))))
            ((newBinDecoder [9, 1, 2, 7] (by decide)).setPos 1) =
            .ok (.ptr (some (.uint 258))) ((newBinDecoder [9, 1, 2, 7] (by decide)).setPos 3) ∧
          (3 : Int) ≤ ((newBinDecoder [9, 1, 2] (by decide)).setPos 1).data.length) :=
  ⟨(fun _ h => nomatch h), rfl, rfl, rfl, ⟨by decide, by decide⟩,
    decode_prefix .rejecting (S := []) (fun _ h => nomatch h) .failing 3 (by rfl) (by rfl) [7] (by rfl)
      (by rfl) (by rfl) ⟨by decide, by decide⟩ (by rfl) _ 3⟩

/-- `struct { E uint8 "bin:binary_extension" }`. -/
def extRecord : GoType := .struct [⟨"E", true, ⟨"", false, .bigEndian, false, true⟩, .uint8⟩]

/-- `struct { X interface{} }`, a type with no `binary_extension` field. -/
def ifaceHolder : GoType := .struct [⟨"X", true, ⟨"", false, .bigEndian, false, false⟩, .iface⟩]

/-- A `ifaceHolder` whose interface holds a `*extRecord` with `E = e`. -/
def heldExt (e : Nat) : Value :=
  .ptr (some (.struct [.iface (some (.ptr extRecord, .ptr (some (.struct [.uint e]))))]))

set_option maxRecDepth 10000 in
/-- Through the interface, a destination of type `*ifaceHolder` reaches an extension field:
from the empty buffer `Decode` succeeds at position `0` and leaves `E` alone, and with
one byte appended it reads `E` and ends at position `1`. -/
theorem decode_extension_in_interface :
    decode customEnv .rejecting .failing 5 (some (.ptr ifaceHolder, heldExt 0))
        (newBinDecoder [] (by decide)) =
      .ok (heldExt 0) ((newBinDecoder [] (by decide)).setPos 0) ∧
    decode customEnv .rejecting .failing 5 (some (.ptr ifaceHolder, heldExt 0))
        (newBinDecoder [7] (by decide)) =
      .ok (heldExt 7) ((newBinDecoder [7] (by decide)).setPos 1) :=
  ⟨rfl, rfl⟩

end BinDecoder
