import BinDecoder.RoundTrip

/-!
# Termination on recursive types whose cycles read input

The model runs `decodeBin` on fuel, so that a run Go would never finish has an outcome
(`outOfFuel`).  Here fuel is shown to be only a bound for the types whose every cycle
reads a byte: for them, with enough fuel, Bin-mode `Decode` of a zero destination has
one outcome, and it is not running out of fuel (`decode_settles`).

The premise is a `Ranking` of call sites.  A call site (`CallSite`) is where `decodeBin`
is called in the type structure: the destination's type, whether the directive is
optional, and whether it carries a slice size.  A ranking drops along every nested call a
call can make before it reads a byte: down a pointer type (within `indirect`), to the
elements of an array, to the elements of a slice whose size was handed down (no count is
read), and to a field of a struct before which no field has read a byte
(`Field.readsAByte`).  A call that reads first (a presence byte, a slice count) may go on
to any site.  For a program's finitely many types such a ranking exists exactly when
every cycle of the call graph reads a byte.

The proof is the measure the specification names: the bytes left first, then the rank
(`callSettles`).  `Settles` says that a fuel-indexed computation has, from some fuel on,
one outcome that is not running out of fuel; it composes along `>>=` (`Settles.bind`).
The steps of a call are taken one by one: `indirect` from a zero destination goes down
the pointer types, allocating, and stops within as many rounds as the ranking allows
(`indirectLoop_zero_settles`); the reads always return (`Halts`); a field that reads a
byte leaves fewer bytes behind it (`readsAByte_consumes`); and the loops of
`decodeElems` and `decodeFields` settle when the calls they make do.  Custom decoders are
user code: they are assumed to return and to move the cursor forward only.
-/

namespace BinDecoder

open Decoder

/-! ## Computations that return -/

/-- `m` returns, fails or panics, and never runs out of fuel. -/
def Halts {α : Type} (m : DecM α) : Prop := ∀ dec, m dec ≠ .outOfFuel

namespace Halts

variable {α β : Type}

theorem pure (a : α) : Halts (Pure.pure a : DecM α) := fun _ => nofun

theorem panic (p : Panic) : Halts (DecM.panic p : DecM α) := fun _ => nofun

theorem fail (e : DecodeError) : Halts (DecM.fail e : DecM α) := fun _ => nofun

theorem bind {m : DecM α} {f : α → DecM β} (hm : Halts m) (hf : ∀ a, Halts (f a)) :
    Halts (m >>= f) := by
  intro dec
  rw [DecM.bind_apply]
  cases h : m dec with
  | ok a d => exact hf a d
  | outOfFuel => exact absurd h (hm dec)
  | _ => nofun

theorem map (f : α → β) {m : DecM α} (hm : Halts m) : Halts (f <$> m) :=
  hm.bind fun _ => Halts.pure _

end Halts

theorem halts_unread : Halts unread := fun dec => by
  unfold unread; split_ifs <;> nofun

theorem halts_readByte : Halts readByte := fun dec => by
  unfold readByte; split_ifs <;> nofun

theorem halts_readBool : Halts readBool := fun dec => by
  unfold readBool
  split_ifs
  · nofun
  · split
    · nofun
    · nofun
    · nofun
    · exact (halts_readByte dec ‹_›).elim

theorem halts_readFixed (what : String) (w : Nat) (order : ByteOrder) :
    Halts (readFixed what w order) := fun dec => by
  unfold readFixed; split_ifs <;> nofun

theorem halts_readBytes : ∀ n, Halts (readBytes n)
  | 0 => Halts.pure _
  | n + 1 => halts_readByte.bind fun _ => (halts_readBytes n).bind fun _ => Halts.pure _

theorem halts_readUint64 (order : ByteOrder) : Halts (readUint64 order) := fun dec => by
  unfold readUint64
  split_ifs
  · nofun
  · refine Halts.bind (fun d => ?_) (fun _ => Halts.pure _) dec
    unfold readNBytes
    split_ifs
    · nofun
    · exact halts_readBytes _ d

theorem halts_readFloat32 (order : ByteOrder) : Halts (readFloat32 order) := fun dec => by
  unfold readFloat32; dsimp only; split_ifs <;> nofun

theorem halts_readFloat64 (order : ByteOrder) : Halts (readFloat64 order) := fun dec => by
  unfold readFloat64; dsimp only; split_ifs <;> nofun

theorem halts_readUvarint64 : Halts readUvarint64 :=
  halts_unread.bind fun buf dec => by
    dsimp only
    split <;> nofun

theorem halts_readString (cu16 : CompactU16) : Halts (readString cu16) := by
  refine Halts.bind (fun dec => ?_) fun length dec => ?_
  · unfold readLength
    split
    · exact (halts_readUvarint64.map _) dec
    · exact ((halts_readFixed _ _ _).map _) dec
    · exact (halts_unread.bind fun buf d => by split <;> nofun).map _ dec
  · dsimp only
    split_ifs
    · nofun
    · refine Halts.bind (fun d => ?_) (fun _ _ => ?_) dec
      · unfold sliceData; split_ifs <;> nofun
      · nofun

/-! ## Reads that move the cursor -/

/-- `m`, when it succeeds, has moved the cursor forward by at least one byte. -/
def Consumes {α : Type} (m : DecM α) : Prop :=
  ∀ dec, dec.InBounds → ∀ a d, m dec = .ok a d → dec.pos < d.pos

namespace Consumes

variable {α β : Type}

theorem map (f : α → β) {m : DecM α} (hm : Consumes m) : Consumes (f <$> m) := by
  intro dec hin b d h
  rw [DecM.map_apply] at h
  cases hd : m dec with
  | ok a d₁ => rw [hd, Outcome.bind_ok] at h; cases h; exact hm dec hin a _ hd
  | _ => rw [hd] at h; cases h

/-- A read that moves, followed by steps that do not move back. -/
theorem bind {m : DecM α} {f : α → DecM β} (hm : Consumes m) (hma : Advances m)
    (hf : ∀ a, Advances (f a)) : Consumes (m >>= f) := by
  intro dec hin b d h
  rw [DecM.bind_apply] at h
  cases hd : m dec with
  | ok a d₁ =>
    rw [hd, Outcome.bind_ok] at h
    have hlt := hm dec hin a d₁ hd
    obtain ⟨k₁, hk₁, rfl⟩ := hma dec hin d₁ (by rw [hd]; rfl)
    obtain ⟨k₂, -, rfl⟩ := hf a _ (inBounds_setPos_of_le hin hk₁) d (by rw [h]; rfl)
    simp only [setPos_pos] at hlt ⊢
    omega
  | _ => rw [hd] at h; cases h

theorem panic (p : Panic) : Consumes (DecM.panic p : DecM α) := by
  intro dec _ a d h; cases h

/-- Steps that do not move back, followed by a read that moves. -/
theorem of_advances_bind {m : DecM α} {f : α → DecM β} (hma : Advances m)
    (hf : ∀ a, Consumes (f a)) : Consumes (m >>= f) := by
  intro dec hin b d h
  rw [DecM.bind_apply] at h
  cases hd : m dec with
  | ok a d₁ =>
    rw [hd, Outcome.bind_ok] at h
    obtain ⟨k₁, hk₁, rfl⟩ := hma dec hin d₁ (by rw [hd]; rfl)
    have hlt := hf a _ (inBounds_setPos_of_le hin hk₁) b d h
    simp only [setPos_pos] at hlt ⊢
    omega
  | _ => rw [hd] at h; cases h

/-- A read that moves leaves fewer bytes unread. -/
theorem rest_lt {m : DecM α} (hm : Consumes m) (hma : Advances m) {dec d : Decoder} {a : α}
    (hin : dec.InBounds) (h : m dec = .ok a d) : d.rest.length < dec.rest.length := by
  have hlt := hm dec hin a d h
  obtain ⟨k, hk, rfl⟩ := hma dec hin d (by rw [h]; rfl)
  simp only [setPos_pos] at hlt
  rw [length_rest_setPos hin]
  omega

end Consumes

theorem consumes_readByte : Consumes readByte := by
  intro dec _ a d h
  unfold readByte at h
  split_ifs at h
  cases h
  simp only [setPos_pos, Int.lt_add_one_iff, le_refl]

theorem consumes_readBool : Consumes readBool := by
  intro dec hin a d h
  unfold readBool at h
  split_ifs at h
  split at h <;> cases h
  exact consumes_readByte dec hin _ _ ‹_›

theorem consumes_readFixed (what : String) {w : Nat} (hw : 0 < w) (order : ByteOrder) :
    Consumes (readFixed what w order) := by
  intro dec _ a d h
  unfold readFixed at h
  split_ifs at h
  cases h
  simp only [setPos_pos]
  omega

theorem consumes_readBytes (n : Nat) : Consumes (readBytes (n + 1)) :=
  consumes_readByte.bind advances_readByte fun _ =>
    (advances_readBytes n).bind fun _ => Advances.pure _

theorem consumes_readUint64 (order : ByteOrder) : Consumes (readUint64 order) := by
  intro dec hin a d h
  unfold readUint64 at h
  split_ifs at h
  rw [DecM.bind_apply, readNBytes, if_neg (by decide)] at h
  exact ((consumes_readBytes 7).bind (advances_readBytes 8) fun data =>
    Advances.pure (order.uint 8 data)) dec hin a d h

theorem consumes_readFloat32 (order : ByteOrder) : Consumes (readFloat32 order) := by
  intro dec _ a d h
  unfold readFloat32 at h
  dsimp only at h
  split_ifs at h
  cases h
  simp only [setPos_pos]
  omega

theorem consumes_readFloat64 (order : ByteOrder) : Consumes (readFloat64 order) := by
  intro dec _ a d h
  unfold readFloat64 at h
  dsimp only at h
  split_ifs at h
  cases h
  simp only [setPos_pos]
  omega

theorem consumes_readUvarint64 : Consumes readUvarint64 := by
  intro dec hin a d h
  rw [readUvarint64_eq hin] at h
  split_ifs at h
  cases h
  simp only [setPos_pos]
  omega

theorem consumes_readLength (cu16 : CompactU16) : Consumes (readLength cu16) := by
  intro dec hin a d h
  unfold readLength at h
  split at h
  · exact (consumes_readUvarint64.map _) dec hin a d h
  · exact ((consumes_readFixed _ (by decide) _).map _) dec hin a d h
  · simp only [DecM.map_apply, readCompactU16, DecM.bind_apply, unread_of_inBounds hin,
      Outcome.bind_ok] at h
    split at h <;> cases h
    have := (cu16.consumed _ _ _ ‹_›).1
    simp only [setPos_pos]
    omega

theorem consumes_readString (cu16 : CompactU16) : Consumes (readString cu16) := by
  intro dec hin a d h
  simp only [readString, readByteSlice, DecM.bind_apply] at h
  cases hL : readLength cu16 dec with
  | ok L d₁ =>
    have hlt := consumes_readLength cu16 dec hin L d₁ hL
    rw [hL, Outcome.bind_ok] at h
    split_ifs at h
    simp only [DecM.bind_apply, sliceData] at h
    split_ifs at h with hs <;> cases h
    simp only [setPos_pos]
    omega
  | _ => rw [hL] at h; cases h

theorem halts_readInt8 : Halts readInt8 := halts_readByte.bind fun _ => Halts.pure _

theorem halts_readInt16 (order : ByteOrder) : Halts (readInt16 order) :=
  (halts_readFixed _ _ _).bind fun _ => Halts.pure _

theorem halts_readInt32 (order : ByteOrder) : Halts (readInt32 order) :=
  (halts_readFixed _ _ _).bind fun _ => Halts.pure _

theorem halts_readInt64 (order : ByteOrder) : Halts (readInt64 order) :=
  (halts_readUint64 _).bind fun _ => Halts.pure _

theorem consumes_readInt8 : Consumes readInt8 :=
  consumes_readByte.bind advances_readByte fun _ => Advances.pure _

theorem consumes_readInt16 (order : ByteOrder) : Consumes (readInt16 order) :=
  (consumes_readFixed _ (by decide) _).bind (advances_readFixed _ _ _) fun _ => Advances.pure _

theorem consumes_readInt32 (order : ByteOrder) : Consumes (readInt32 order) :=
  (consumes_readFixed _ (by decide) _).bind (advances_readFixed _ _ _) fun _ => Advances.pure _

theorem consumes_readInt64 (order : ByteOrder) : Consumes (readInt64 order) :=
  (consumes_readUint64 _).bind (advances_readUint64 _) fun _ => Advances.pure _

theorem DecM.map_eq_ok {α β : Type} {f : α → β} {m : DecM α} {dec d : Decoder} {b : β}
    (h : (f <$> m) dec = .ok b d) : ∃ a, m dec = .ok a d := by
  rw [DecM.map_apply] at h
  cases hm : m dec with
  | ok a d' => rw [hm, Outcome.bind_ok] at h; cases h; exact ⟨a, rfl⟩
  | _ => rw [hm] at h; cases h

theorem halts_readPresence (rv : RValue) : Halts (readPresence rv) := fun dec => by
  unfold readPresence
  cases h : readByte dec with
  | err e d => dsimp only; split <;> nofun
  | outOfFuel => exact absurd h (halts_readByte dec)
  | _ => nofun

theorem consumes_readPresence (rv : RValue) : Consumes (readPresence rv) := by
  intro dec hin a d h
  unfold readPresence at h
  cases hb : readByte dec with
  | ok b d' => rw [hb] at h; cases h; exact consumes_readByte dec hin _ _ hb
  | err e d' => rw [hb] at h; dsimp only at h; split at h <;> cases h
  | _ => rw [hb] at h; cases h

theorem halts_setZero (env : TypeEnv) (rv : RValue) (r : Value) : Halts (setZero env rv r) := by
  unfold setZero
  split
  · exact Halts.pure _
  all_goals exact Halts.panic _

theorem halts_sizeof (env : TypeEnv) (t : GoType) (v : Value) : Halts (sizeof env t v) := by
  rcases sizeof_cases env t v with ⟨i, h⟩ | h <;> rw [h]
  exacts [Halts.pure _, Halts.panic _]

/-- A step after `indirect` that reads a byte, whatever `indirect` found. -/
theorem Consumes.resolve_bind {α β : Type} {o : Option (Except Panic α)} {f : α → DecM β}
    (hf : ∀ a, o = some (.ok a) → Consumes (f a)) : Consumes (resolve o >>= f) := by
  intro dec hin b d h
  rcases o with _ | _ | a
  · cases h
  · cases h
  · exact hf a rfl dec hin b d h

/-- A step that returned leaves a session in bounds, with no more bytes left. -/
theorem Advances.ok_rest {α : Type} {m : DecM α} (h : Advances m) {dec d : Decoder} {a : α}
    (hin : dec.InBounds) (hd : m dec = .ok a d) : d.InBounds ∧ d.rest.length ≤ dec.rest.length := by
  obtain ⟨k, hk, rfl⟩ := h dec hin d (by rw [hd]; rfl)
  exact ⟨inBounds_setPos_of_le hin hk, by rw [length_rest_setPos hin]; omega⟩

/-! ## Computations on fuel that settle -/

/-- From some fuel on, the fuel-indexed computation `m` has one outcome at `dec`, and it
is not running out of fuel: more fuel changes nothing. -/
def Settles {α : Type} (m : Nat → DecM α) (dec : Decoder) : Prop :=
  ∃ N o, o ≠ .outOfFuel ∧ ∀ n, N ≤ n → m n dec = o

namespace Settles

variable {α β : Type} {dec : Decoder}

theorem of_halts {m : DecM α} (hm : Halts m) : Settles (fun _ => m) dec :=
  ⟨0, m dec, hm dec, fun _ _ => rfl⟩

theorem congr {m m' : Nat → DecM α} (h : ∀ n, m n dec = m' n dec) (hm : Settles m' dec) :
    Settles m dec := by
  obtain ⟨N, o, ho, hN⟩ := hm
  exact ⟨N, o, ho, fun n hn => (h n).trans (hN n hn)⟩

/-- The fuel a call spends on itself. -/
theorem of_succ {m : Nat → DecM α} (h : Settles (fun n => m (n + 1)) dec) : Settles m dec := by
  obtain ⟨N, o, ho, hN⟩ := h
  refine ⟨N + 1, o, ho, fun n hn => ?_⟩
  obtain ⟨k, rfl⟩ : ∃ k, n = k + 1 := ⟨n - 1, by omega⟩
  exact hN k (by omega)

/-- The outcome of `m >>= f` settles once `m` has settled and, if `m` returned, `f` has
settled on what it returned. -/
theorem bind {m : Nat → DecM α} {f : Nat → α → DecM β} (hm : Settles m dec)
    (hf : ∀ a d, (∃ N, ∀ n, N ≤ n → m n dec = .ok a d) → Settles (fun n => f n a) d) :
    Settles (fun n => m n >>= f n) dec := by
  obtain ⟨N, o, ho, hN⟩ := hm
  have hbind : ∀ n, N ≤ n → (m n >>= f n) dec = o.bind (f n) := fun n hn => by
    rw [DecM.bind_apply, hN n hn]
  cases o with
  | ok a d =>
    obtain ⟨N', o', ho', hN'⟩ := hf a d ⟨N, hN⟩
    exact ⟨max N N', o', ho', fun n hn =>
      (hbind n (le_of_max_le_left hn)).trans (hN' n (le_of_max_le_right hn))⟩
  | err e d => exact ⟨N, .err e d, nofun, hbind⟩
  | panic p => exact ⟨N, .panic p, nofun, hbind⟩
  | outOfFuel => exact absurd rfl ho

theorem map (f : α → β) {m : Nat → DecM α} (hm : Settles m dec) :
    Settles (fun n => f <$> m n) dec :=
  hm.bind fun _ _ _ => of_halts (Halts.pure _)

/-- A step after `indirect`, once `indirect` has settled. -/
theorem resolve_bind {o : Nat → Option (Except Panic α)} {f : Nat → α → DecM β}
    {res : Except Panic α} (ho : ∃ N, ∀ n, N ≤ n → o n = some res)
    (hf : ∀ a, res = .ok a → Settles (fun n => f n a) dec) :
    Settles (fun n => resolve (o n) >>= f n) dec := by
  obtain ⟨N, hN⟩ := ho
  cases res with
  | error p => exact ⟨N, .panic p, nofun, fun n hn => by dsimp only; rw [hN n hn]; rfl⟩
  | ok a =>
    obtain ⟨N', o', ho', hN'⟩ := hf a rfl
    exact ⟨max N N', o', ho', fun n hn => by
      dsimp only; rw [hN n (le_of_max_le_left hn)]; exact hN' n (le_of_max_le_right hn)⟩

end Settles

/-! ## Call sites and their ranking -/

/-- Where a call of `decodeBin` stands in the type structure: the destination's type, and
the two parts of its directive that decide whether it reads a byte before it calls on:
`optional` (a presence byte) and `sized` (a slice size handed down, so that no count is
read). -/
structure CallSite where
  type : GoType
  optional : Bool
  sized : Bool

/-- The call site of a call on type `t` under the directive `o`. -/
def FieldOption.site (o : FieldOption) (t : GoType) : CallSite :=
  ⟨t, o.optionalField, o.sizeOfSlice.isSome⟩

/-- The call sites a decode of a value of type `root` reaches: from the destination's type
down a pointer type with no custom decoder (within `indirect`), to the elements of an array
or a slice under the same directive, and to an exported field that is not skipped, under
its tag's directive, sized only when a `sizeof=` field before it names it. -/
inductive Reaches (env : TypeEnv) (root : GoType) : CallSite → Prop
  | root : Reaches env root ⟨root, false, false⟩
  | ptr {t e : GoType} {o s : Bool} : Reaches env root ⟨t, o, s⟩ → env.underlying t = .ptr e →
      env.methodOf t = none → Reaches env root ⟨e, o, s⟩
  | array {t e : GoType} {k : Nat} {o s : Bool} : Reaches env root ⟨t, o, s⟩ →
      env.underlying t = .array k e → Reaches env root ⟨e, o, s⟩
  | slice {t e : GoType} {o s : Bool} : Reaches env root ⟨t, o, s⟩ →
      env.underlying t = .slice e → Reaches env root ⟨e, o, s⟩
  | field {t : GoType} {pre post : List (Field GoType)} {f : Field GoType} {o s s' : Bool} :
      Reaches env root ⟨t, o, s⟩ → env.underlying t = .struct (pre ++ f :: post) →
      f.exported = true → f.tag.skip = false →
      (s' = true → ∃ g ∈ pre, g.tag.sizeOf ≠ "" ∧ g.tag.sizeOf = f.name) →
      Reaches env root ⟨f.type, f.tag.optional, s'⟩

mutual
/-- No struct in `t`, type names aside, has a `sizeof=` field. -/
def GoType.sizeofFree : GoType → Bool
  | .array _ e | .ptr e | .slice e => e.sizeofFree
  | .struct fs => GoType.fieldsSizeofFree fs
  | _ => true

/-- `GoType.sizeofFree` of the fields of a struct type, none of them a `sizeof=` field. -/
def GoType.fieldsSizeofFree : List (Field GoType) → Bool
  | [] => true
  | f :: fs => decide (f.tag.sizeOf = "") && f.type.sizeofFree && GoType.fieldsSizeofFree fs
end

theorem GoType.sizeofFree_of_mem {f : Field GoType} :
    ∀ {fs : List (Field GoType)}, GoType.fieldsSizeofFree fs = true → f ∈ fs →
      f.tag.sizeOf = "" ∧ f.type.sizeofFree = true
  | _ :: _, h, .head _ => by
    simp only [GoType.fieldsSizeofFree, Bool.and_eq_true, decide_eq_true_eq] at h
    exact h.1
  | _ :: _, h, .tail _ hf => by
    simp only [GoType.fieldsSizeofFree, Bool.and_eq_true] at h
    exact GoType.sizeofFree_of_mem h.2 hf

/-- A program none of whose defined types has a `sizeof=` field reaches no sized site from
a destination type with none. -/
theorem Reaches.unsized {env : TypeEnv} {root : GoType}
    (henv : ∀ n, (env.decl n).underlying.sizeofFree = true) (hroot : root.sizeofFree = true)
    {c : CallSite} (h : Reaches env root c) : c.type.sizeofFree = true ∧ c.sized = false := by
  have hu : ∀ {t : GoType}, t.sizeofFree = true → (env.underlying t).sizeofFree = true := by
    intro t ht
    cases t <;> first | exact henv _ | exact ht
  induction h with
  | root => exact ⟨hroot, rfl⟩
  | ptr _ he _ ih | array _ he ih | slice _ he ih =>
    have := hu ih.1
    rw [he] at this
    exact ⟨this, ih.2⟩
  | @field t pre post f o s s' _ he _ _ hs ih =>
    have hfs := hu ih.1
    rw [he] at hfs
    refine ⟨(GoType.sizeofFree_of_mem hfs (List.mem_append_right _ (List.mem_cons_self _ _))).2, ?_⟩
    cases s'
    · rfl
    · obtain ⟨g, hg, hne, -⟩ := hs rfl
      exact absurd (GoType.sizeofFree_of_mem hfs (List.mem_append_left _ hg)).1 hne

/-- The kinds `decodeKind` reads with one read of at least one byte. -/
def GoType.isScalar : GoType → Bool
  | .bool | .int8 | .int16 | .int32 | .int64 | .uint8 | .uint16 | .uint32 | .uint64
  | .float32 | .float64 | .string => true
  | _ => false

/-- A field whose decoding, when it succeeds, has read a byte, given the types `reads`
counts as reading one: it is exported, not skipped and not a `binary_extension` field
(which an empty buffer leaves alone), and it is optional (its presence byte) or of such a
type. -/
def Field.readsAByte (reads : GoType → Bool) (f : Field GoType) : Bool :=
  f.exported && !f.tag.skip && !f.tag.binaryExtension && (f.tag.optional || reads f.type)

/-- One step of the argument that decoding a zero value of type `t` reads a byte when it
returns, from the types `reads` counts: `*t` has no custom decoder, and `t` is of a kind
read directly, a pointer type with no custom decoder to a counted type, a non-empty array
of one, or a struct with a field that reads a byte. -/
def ReadsStep (env : TypeEnv) (reads : GoType → Bool) (t : GoType) : Prop :=
  env.methodOf (.ptr t) = none ∧
    ((env.underlying t).isScalar = true ∨
      (∃ e, env.underlying t = .ptr e ∧ env.methodOf t = none ∧ reads e = true) ∨
      (∃ k e, env.underlying t = .array (k + 1) e ∧ reads e = true) ∨
      ∃ fs, env.underlying t = .struct fs ∧ ∃ g ∈ fs, g.readsAByte reads = true)

/-- A ranking of the call sites a decode of `root` reaches.  It drops down every pointer
type `indirect` goes down, and along every other call a call makes before it has read a
byte.  A call that is not optional makes them; an optional one reads its presence byte
first, and so does a slice that is not sized, with its count.  `reads` counts types whose
decoding reads a byte, each by a rule of `ReadsStep`. -/
structure Ranking (env : TypeEnv) (root : GoType) where
  rank : CallSite → Nat
  reads : GoType → Bool
  reads_step : ∀ {t : GoType}, reads t = true → ReadsStep env reads t
  /-- `indirect` goes down a pointer type that has no custom decoder, also after a presence
  byte. -/
  ptr_lt : ∀ {t e : GoType} {o s : Bool}, Reaches env root ⟨t, o, s⟩ →
    env.underlying t = .ptr e → env.methodOf t = none → rank ⟨e, o, s⟩ < rank ⟨t, o, s⟩
  /-- The elements of an array, under the array's directive. -/
  array_lt : ∀ {t e : GoType} {k : Nat} {s : Bool}, Reaches env root ⟨t, false, s⟩ →
    env.underlying t = .array k e → rank ⟨e, false, s⟩ < rank ⟨t, false, s⟩
  /-- The elements of a slice whose size was handed down. -/
  slice_lt : ∀ {t e : GoType}, Reaches env root ⟨t, false, true⟩ →
    env.underlying t = .slice e → rank ⟨e, false, true⟩ < rank ⟨t, false, true⟩
  /-- A field that no field before it reads a byte for. -/
  field_lt : ∀ {t : GoType} {pre post : List (Field GoType)} {f : Field GoType} {s s' : Bool},
    Reaches env root ⟨t, false, s⟩ → env.underlying t = .struct (pre ++ f :: post) →
    f.exported = true → f.tag.skip = false → (∀ g ∈ pre, g.readsAByte reads = false) →
    (s' = true → ∃ g ∈ pre, g.tag.sizeOf ≠ "" ∧ g.tag.sizeOf = f.name) →
    rank ⟨f.type, f.tag.optional, s'⟩ < rank ⟨t, false, s⟩

/-- Where `indirect`, from a zero value at the site `c`, may stop: at a custom decoder of
the program, or at a zero value whose site is reached and ranked no higher than `c`. -/
def Stopped {env : TypeEnv} {root : GoType} (R : Ranking env root) (c : CallSite) :
    Indirection → Prop
  | ⟨some (um, _), _, _⟩ => ∃ t', env.methodOf t' = some um
  | ⟨none, .loc u q _, r⟩ => r.get q = some (env.zero u) ∧
      Reaches env root ⟨u, c.optional, c.sized⟩ ∧ R.rank ⟨u, c.optional, c.sized⟩ ≤ R.rank c
  | ⟨none, _, _⟩ => True

theorem Stopped.mono {env : TypeEnv} {root : GoType} {R : Ranking env root} {t t' : GoType}
    {o s : Bool} (h : R.rank ⟨t, o, s⟩ ≤ R.rank ⟨t', o, s⟩) :
    ∀ {a : Indirection}, Stopped R ⟨t, o, s⟩ a → Stopped R ⟨t', o, s⟩ a
  | ⟨some _, _, _⟩, ha => ha
  | ⟨none, .loc _ _ _, _⟩, ha => ⟨ha.1, ha.2.1, ha.2.2.trans h⟩
  | ⟨none, .invalid, _⟩, _ => trivial
  | ⟨none, .addr _ _, _⟩, _ => trivial

/-! ## `indirect` from a zero value -/

section Indirect

variable (env : TypeEnv)

/-- At a zero value the loop enters no interface: a zero interface is nil. -/
theorem enterInterface_zero {r : Value} {t : GoType} {p : List Step}
    (hr : r.get p = some (env.zero t)) (s dn : Bool) :
    (RValue.loc t p s).enterInterface env r dn = none := by
  by_cases hi : env.kind t = .interface
  · have hu : env.underlying t = .iface := by
      unfold TypeEnv.kind at hi
      generalize env.underlying t = u at hi ⊢
      cases u <;> first | rfl | cases hi
    have hz : env.zero t = .iface none := by rw [env.zero_eq_of_underlying hu]; rfl
    simp [RValue.enterInterface, RValue.isNil, hr, hz]
  · exact RValue.enterInterface_of_ne env r _ dn (by simpa using hi)

/-- The loop stops at once at a zero value that is not a pointer. -/
theorem indirectLoop_stop_zero {r : Value} {t : GoType} {p : List Step}
    (hr : r.get p = some (env.zero t)) (hp : env.kind t ≠ .ptr) (dn : Bool) (v0 : RValue)
    (n : Nat) (s h : Bool) :
    indirectLoop env dn v0 (n + 1) (.loc t p s) h r = some (.ok ⟨none, .loc t p s, r⟩) := by
  simp only [indirectLoop, enterInterface_zero env hr, RValue.kind_loc, hp, ne_eq,
    not_false_eq_true, if_true]

/-- Under an optional directive the loop stops at once at a zero value. -/
theorem indirectLoop_zero_optional {r : Value} {t : GoType} {p : List Step}
    (hr : r.get p = some (env.zero t)) (v0 : RValue) (n : Nat) :
    indirectLoop env true v0 (n + 1) (.loc t p true) false r =
      some (.ok ⟨none, .loc t p true, r⟩) := by
  by_cases hp : env.kind t = .ptr
  · exact indirectLoop_nil_optional env hp (by rw [hr, env.zero_of_kind_ptr hp]) v0 n false
  · exact indirectLoop_stop_zero env hr hp true v0 n true false

/-- From a settable zero value of a type of `P`, where `P` goes on down every pointer type
of it with no custom decoder, the loop can only stop at a zero value of a type of `P` that
is not a pointer. -/
theorem indirectLoop_zero_closed {P : GoType → Prop}
    (hP : ∀ {t : GoType}, P t → env.kind t = .ptr →
      ∃ e, env.underlying t = .ptr e ∧ env.methodOf t = none ∧ P e) (v0 : RValue) :
    ∀ (n : Nat) {t : GoType} {p : List Step} {r : Value} {a : Indirection}, P t →
      r.get p = some (env.zero t) →
      indirectLoop env false v0 n (.loc t p true) false r = some (.ok a) →
      a.unmarshaler = none ∧ ∃ u q, a.value = .loc u q true ∧
        a.root.get q = some (env.zero u) ∧ P u ∧ env.kind u ≠ .ptr
  | 0, _, _, _, _, _, _, h => by cases h
  | n + 1, t, p, r, a, ht, hr, h => by
    by_cases hp : env.kind t = .ptr
    · obtain ⟨e, he, hm, he'⟩ := hP ht hp
      have hr' : r.get p = some (.ptr none) := by rw [hr, env.zero_of_kind_ptr hp]
      rw [indirectLoop_deref env he hm hr' (fun _ => rfl)] at h
      refine indirectLoop_zero_closed hP v0 n he' ?_ h
      rw [Value.get_append, Value.get_set_self p r _ (by simp [hr'])]
      rfl
    · rw [indirectLoop_stop_zero env hr hp false v0 n true false] at h
      cases h
      exact ⟨rfl, t, p, rfl, hr, ht, hp⟩

/-- `indirect` from a settable zero value, as `indirectLoop_zero_closed`. -/
theorem indirect_zero_closed {P : GoType → Prop}
    (hP : ∀ {t : GoType}, P t → env.kind t = .ptr →
      ∃ e, env.underlying t = .ptr e ∧ env.methodOf t = none ∧ P e)
    {t : GoType} (hm : env.methodOf (.ptr t) = none) (ht : P t) {p : List Step} {r : Value}
    (hr : r.get p = some (env.zero t)) {n : Nat} {a : Indirection}
    (h : indirect env n (.loc t p true) false r = some (.ok a)) :
    a.unmarshaler = none ∧ ∃ u q, a.value = .loc u q true ∧
      a.root.get q = some (env.zero u) ∧ P u ∧ env.kind u ≠ .ptr := by
  cases n with
  | zero => rw [indirect] at h; split at h <;> cases h
  | succ n =>
    obtain ⟨f, -, heq⟩ := indirect_loc_settable env hm p false n r
    rw [heq] at h
    exact indirectLoop_zero_closed env hP _ f ht hr h

end Indirect

/-- Under an optional directive, `indirect` from a settable zero value stops at once: at a
custom decoder, or at the value itself. -/
theorem indirect_zero_optional_settles (env : TypeEnv) {t : GoType} {p : List Step} {r : Value}
    (hr : r.get p = some (env.zero t)) :
    ∃ N res, (∀ n, N ≤ n → indirect env n (.loc t p true) true r = some res) ∧
      ∀ a, res = .ok a → a.value = .invalid ∨ a.value = .loc t p true ∧ a.root = r := by
  cases hm : env.methodOf (.ptr t) with
  | some u =>
    obtain ⟨N, rfl, hu⟩ := env.methodOf_ptr_some hm
    refine ⟨1, .ok ⟨some (u, p), .invalid, r⟩, fun n hn => ?_, fun a ha => by cases ha; exact .inl rfl⟩
    obtain ⟨n, rfl⟩ : ∃ m, n = m + 1 := ⟨n - 1, by omega⟩
    exact indirect_unmarshaler env hu p true n r
  | none =>
    refine ⟨2, .ok ⟨none, .loc t p true, r⟩, fun n hn => ?_,
      fun a ha => by cases ha; exact .inr ⟨rfl, rfl⟩⟩
    obtain ⟨n, rfl⟩ : ∃ m, n = m + 1 := ⟨n - 1, by omega⟩
    obtain ⟨f, hf, heq⟩ := indirect_loc_settable env hm p true n r
    obtain ⟨f, rfl⟩ : ∃ g, f = g + 1 := ⟨f - 1, by omega⟩
    rw [heq]
    exact indirectLoop_zero_optional env hr _ f

section Chain

variable {env : TypeEnv} {root : GoType} (R : Ranking env root) (o s : Bool)

/-- The loop from a settable zero value at a reached site goes down the pointer types,
allocating, and from some fuel on stops where `Stopped` says: each round lowers the rank of
the site. -/
theorem indirectLoop_zero_settles (v0 : RValue) :
    ∀ (k : Nat) {t : GoType}, Reaches env root ⟨t, o, s⟩ → R.rank ⟨t, o, s⟩ < k →
      ∀ {p : List Step} {r : Value}, r.get p = some (env.zero t) →
      ∃ N res, (∀ n, N ≤ n → indirectLoop env false v0 n (.loc t p true) false r = some res) ∧
        ∀ a, res = .ok a → Stopped R ⟨t, o, s⟩ a
  | 0, _, _, hk, _, _, _ => absurd hk (Nat.not_lt_zero _)
  | k + 1, t, ht, hk, p, r, hr => by
    by_cases hp : env.kind t = .ptr
    · obtain ⟨e, he⟩ := env.underlying_of_kind_ptr hp
      have hr' : r.get p = some (.ptr none) := by rw [hr, env.zero_of_kind_ptr hp]
      cases hm : env.methodOf t with
      | some u =>
        refine ⟨1, .ok ⟨some (u, p ++ [.deref]), .invalid, r.set p (.ptr (some (env.zero e)))⟩,
          fun n hn => ?_, fun a ha => by cases ha; exact ⟨t, hm⟩⟩
        obtain ⟨n, rfl⟩ : ∃ m, n = m + 1 := ⟨n - 1, by omega⟩
        exact indirectLoop_method env he hm hr' (fun _ => rfl) v0 n
      | none =>
        have hlt := R.ptr_lt ht he hm
        have hget : (r.set p (.ptr (some (env.zero e)))).get (p ++ [.deref]) =
            some (env.zero e) := by
          rw [Value.get_append, Value.get_set_self p r _ (by simp [hr'])]; rfl
        obtain ⟨N, res, hN, hres⟩ :=
          indirectLoop_zero_settles v0 k (.ptr ht he hm) (by omega) hget
        refine ⟨N + 1, res, fun n hn => ?_, fun a ha => (hres a ha).mono hlt.le⟩
        obtain ⟨n, rfl⟩ : ∃ m, n = m + 1 := ⟨n - 1, by omega⟩
        rw [indirectLoop_deref env he hm hr' (fun _ => rfl)]
        exact hN n (by omega)
    · refine ⟨1, .ok ⟨none, .loc t p true, r⟩, fun n hn => ?_,
        fun a ha => by cases ha; exact ⟨hr, ht, le_rfl⟩⟩
      obtain ⟨n, rfl⟩ : ∃ m, n = m + 1 := ⟨n - 1, by omega⟩
      exact indirectLoop_stop_zero env hr hp false v0 n true false

/-- `indirect` from a settable zero value at a reached site settles where `Stopped` says. -/
theorem indirect_zero_settles {t : GoType} (ht : Reaches env root ⟨t, o, s⟩) {p : List Step}
    {r : Value} (hr : r.get p = some (env.zero t)) :
    ∃ N res, (∀ n, N ≤ n → indirect env n (.loc t p true) false r = some res) ∧
      ∀ a, res = .ok a → Stopped R ⟨t, o, s⟩ a := by
  cases hm : env.methodOf (.ptr t) with
  | some u =>
    obtain ⟨N, rfl, hu⟩ := env.methodOf_ptr_some hm
    refine ⟨1, .ok ⟨some (u, p), .invalid, r⟩, fun n hn => ?_,
      fun a ha => by cases ha; exact ⟨_, hm⟩⟩
    obtain ⟨n, rfl⟩ : ∃ m, n = m + 1 := ⟨n - 1, by omega⟩
    exact indirect_unmarshaler env hu p false n r
  | none =>
    obtain ⟨N, res, hN, hres⟩ :=
      indirectLoop_zero_settles R o s (.loc t p true) _ ht (Nat.lt_succ_self _) hr
    refine ⟨N + 1, res, fun n hn => ?_, hres⟩
    obtain ⟨n, rfl⟩ : ∃ m, n = m + 1 := ⟨n - 1, by omega⟩
    obtain ⟨f, hf, heq⟩ := indirect_loc_settable env hm p false n r
    rw [heq]
    exact hN f (by omega)

end Chain

/-- The custom decoders of a program return, fail or panic: they are user code, and the
decoder calls them as they are. -/
def TypeEnv.MethodsHalt (env : TypeEnv) : Prop :=
  ∀ t u, env.methodOf t = some u → ∀ x, Halts (u.unmarshalBinary x)

/-- Under an optional directive, `decodeBin` is `indirect` with `decodingNull`, the presence
byte, and for a present value a second `indirect` and `decodeValue`. -/
theorem decodeBin_eq_resolve_optional (env : TypeEnv) (cu16 : CompactU16) {n : Nat}
    {t : GoType} {s : Bool} {o : FieldOption} {x : Value} (ho : o.optionalField = true) :
    decodeBin env cu16 (n + 1) t s (some o) x =
      (resolve (indirect env n (.loc t [] s) true x) >>= fun i =>
        readPresence i.value >>= fun b =>
          if b = 0 then setZero env i.value i.root
          else resolve (indirect env n i.value false i.root) >>= fun i' =>
            decodeValue env cu16 (decodeBin env cu16 n) o i'.unmarshaler i'.value i'.root) := by
  simp only [decodeBin, Option.getD_some, ho, if_true]

theorem GoType.kind_of_isScalar {u : GoType} (h : u.isScalar = true) :
    u.kind ≠ .ptr ∧ u.kind ≠ .interface := by
  cases u <;> first | exact ⟨by decide, by decide⟩ | exact absurd h Bool.false_ne_true

/-- The dispatch at a kind read directly reads a byte when it returns. -/
theorem consumes_decodeKind (env : TypeEnv) (cu16 : CompactU16) (rec : DecodeFn)
    (o : FieldOption) {t : GoType} (hs : (env.underlying t).isScalar = true) (x : Value) :
    Consumes (decodeKind env cu16 rec o t x) := by
  unfold decodeKind
  generalize env.underlying t = u at hs ⊢
  cases u
  case bool => exact consumes_readBool.map _
  case int8 => exact consumes_readInt8.map _
  case int16 => exact (consumes_readInt16 _).map _
  case int32 => exact (consumes_readInt32 _).map _
  case int64 => exact (consumes_readInt64 _).map _
  case uint8 => exact consumes_readByte.map _
  case uint16 => exact (consumes_readFixed _ (by decide) _).map _
  case uint32 => exact (consumes_readFixed _ (by decide) _).map _
  case uint64 => exact (consumes_readUint64 _).map _
  case float32 => exact (consumes_readFloat32 _).map _
  case float64 => exact (consumes_readFloat64 _).map _
  case string => exact (consumes_readString cu16).map _
  all_goals exact absurd hs Bool.false_ne_true

/-! ## Calls that read a byte -/

section Reads

variable {env : TypeEnv} (cu16 : CompactU16) {reads : GoType → Bool}
  (hreads : ∀ {t : GoType}, reads t = true → ReadsStep env reads t)
include hreads

/-- A counted pointer type goes on to a counted type: the other rules are for other kinds. -/
theorem ReadsStep.down {t : GoType} (ht : reads t = true) (hp : env.kind t = .ptr) :
    ∃ e, env.underlying t = .ptr e ∧ env.methodOf t = none ∧ reads e = true := by
  rcases (hreads ht).2 with hs | he | ⟨k, e, he, -⟩ | ⟨fs, hfs, -⟩
  · exact absurd hp (GoType.kind_of_isScalar hs).1
  · exact he
  · simp [TypeEnv.kind, he, GoType.kind] at hp
  · simp [TypeEnv.kind, hfs, GoType.kind] at hp

variable {rec : DecodeFn} (hadv : ∀ t s o x, Advances (rec t s o x))
  (hcons : ∀ t o, (o.optionalField = true ∨ reads t = true) →
    Consumes (rec t true (some o) (env.zero t)))
include hadv hcons

omit hreads in
/-- The field loop reads a byte when it returns if one of its fields reads a byte. -/
theorem consumes_decodeFields :
    ∀ (fs : List (Field GoType)) (m : String → Option Int) (seen : Bool),
      (∃ g ∈ fs, g.readsAByte reads = true) →
      Consumes (decodeFields env rec fs (zeroFields env.namedZero fs) m seen)
  | [], _, _, ⟨_, hg, _⟩ => absurd hg (List.not_mem_nil _)
  | f :: fs, m, seen, ⟨g, hg, hr⟩ => by
    have ih := consumes_decodeFields fs
    rw [zeroFields, decodeFields]
    cases hf : f.readsAByte reads
    · -- the byte is read at a later field
      have hg' : ∃ g ∈ fs, g.readsAByte reads = true := by
        rcases List.mem_cons.mp hg with rfl | hg
        · exact absurd (hf.symm.trans hr) Bool.false_ne_true
        · exact ⟨g, hg, hr⟩
      by_cases hskip : f.tag.skip = true
      · rw [if_pos hskip]
        exact (ih m seen hg').map _
      rw [if_neg hskip]
      by_cases hord : (!f.tag.binaryExtension && seen) = true
      · rw [if_pos hord]
        exact Consumes.panic _
      rw [if_neg hord]
      refine Consumes.of_advances_bind ?_ fun exhausted => ?_
      · split
        · exact advances_unread.map _
        · exact Advances.pure _
      split
      · exact (ih _ _ hg').map _
      · refine Consumes.of_advances_bind (hadv _ _ _ _) fun v => Consumes.of_advances_bind ?_
          fun _ => (ih _ _ hg').map _
        split
        · exact (advances_sizeof env _ v).map _
        · exact Advances.pure _
    · -- `f` reads the byte
      simp only [Field.readsAByte, Bool.and_eq_true, Bool.not_eq_true', Bool.or_eq_true] at hf
      obtain ⟨⟨⟨hexp, hskip⟩, hext⟩, hread⟩ := hf
      rw [if_neg (by simp [hskip])]
      by_cases hord : (!f.tag.binaryExtension && seen) = true
      · rw [if_pos hord]
        exact Consumes.panic _
      rw [if_neg hord, hext, if_neg Bool.false_ne_true, DecM.pure_bind,
        if_neg (by simp [hexp])]
      refine (hcons f.type (fieldOption f m) hread).bind (hadv _ _ _ _) fun v =>
        Advances.bind ?_ fun _ => (advances_decodeFields hadv _ _ _ _).map _
      split
      · exact (advances_sizeof env _ v).map _
      · exact Advances.pure _

/-- The dispatch at a zero value of a counted type that is not a pointer reads a byte when
it returns. -/
theorem consumes_decodeKind_reads (o : FieldOption) {u : GoType} (hu : reads u = true)
    (hp : env.kind u ≠ .ptr) : Consumes (decodeKind env cu16 rec o u (env.zero u)) := by
  rcases (hreads hu).2 with hs | ⟨e, he, -⟩ | ⟨k, e, he, hre⟩ | ⟨fs, hfs, hg⟩
  · exact consumes_decodeKind env cu16 rec o hs _
  · exact absurd (by simp [TypeEnv.kind, he, GoType.kind]) hp
  · simp only [decodeKind, he]
    rw [show (env.zero u).elems = List.replicate (k + 1) (env.zero e) by
      rw [env.zero_eq_of_underlying he]; rfl, List.replicate_succ, decodeElems]
    exact ((hcons e o (.inr hre)).bind (hadv _ _ _ _) fun _ =>
      (advances_decodeElems hadv _ _ _).bind fun _ => Advances.pure _).map _
  · simp only [decodeKind, hfs]
    rw [show (env.zero u).fields = zeroFields env.namedZero fs by
      rw [env.zero_eq_of_underlying hfs]; rfl]
    exact (consumes_decodeFields hadv hcons fs _ false hg).map _

end Reads

/-- What a field that reads a byte asks of its call. -/
theorem Field.readsAByte_call {reads : GoType → Bool} {f : Field GoType}
    (h : f.readsAByte reads = true) : f.tag.optional = true ∨ reads f.type = true := by
  simp only [Field.readsAByte, Bool.and_eq_true, Bool.or_eq_true] at h
  exact h.2

/-- A call on a zero value that reads a presence byte, or that is of a counted type, has
read a byte when it returns. -/
theorem decodeBin_consumes {env : TypeEnv} (cu16 : CompactU16) {reads : GoType → Bool}
    (hreads : ∀ {t : GoType}, reads t = true → ReadsStep env reads t) (hm : env.MethodsAdvance) :
    ∀ (n : Nat) (t : GoType) (o : FieldOption), (o.optionalField = true ∨ reads t = true) →
      Consumes (decodeBin env cu16 n t true (some o) (env.zero t))
  | 0, _, _, _ => fun _ _ _ _ h => by cases h
  | n + 1, t, o, h => by
    cases ho : o.optionalField
    · have ht := h.resolve_left (by simp [ho])
      rw [decodeBin_eq_resolve env cu16 (o := some o) ho]
      refine Consumes.resolve_bind fun ⟨um, rv, r⟩ ha => ?_
      obtain ⟨hum, u, q, hv, hq, hu, hp⟩ :=
        indirect_zero_closed env (ReadsStep.down hreads) (hreads ht).1 ht (p := [])
          (r := env.zero t) rfl ha
      dsimp only at hum hv hq
      subst hum hv
      have hk := consumes_decodeKind_reads cu16 hreads (advances_decodeBin cu16 hm n)
        (decodeBin_consumes cu16 hreads hm n) o hu hp
      intro dec hin b d hd
      simp only [Option.getD_some, decodeValue_loc] at hd
      rw [show r.at q = env.zero u by simp [Value.at, hq]] at hd
      exact hk.map (r.set q) dec hin b d (by rw [DecM.map_apply]; exact hd)
    · rw [decodeBin_eq_resolve_optional env cu16 ho]
      refine Consumes.resolve_bind fun i _ =>
        (consumes_readPresence i.value).bind (advances_readPresence i.value) fun b => ?_
      split
      · exact advances_setZero env _ _
      · exact Advances.resolve_bind fun _ h =>
          advances_decodeValue_of_indirect cu16 hm (advances_decodeBin cu16 hm _) h o

/-! ## The calls of `decodeBin` settle -/

section Settle

variable {env : TypeEnv} (cu16 : CompactU16) {root : GoType} (R : Ranking env root)

/-- Every call on a settable zero destination at a reached site below `(b, ρ)` settles: one
at a session with fewer than `b` bytes left, or with `b` left at a call site ranked below
`ρ`. -/
def SettlesBelow (b ρ : Nat) : Prop :=
  ∀ (t : GoType) (o : FieldOption) (dec : Decoder), Reaches env root (o.site t) → dec.InBounds →
    dec.rest.length < b ∨ dec.rest.length = b ∧ R.rank (o.site t) < ρ →
    Settles (fun n => decodeBin env cu16 n t true (some o) (env.zero t)) dec

/-- The element loop settles when each element call does, wherever the calls before it
have left the session. -/
theorem settles_decodeElems (hm : env.MethodsAdvance) {e : GoType} {o : FieldOption} {B : Nat}
    (hcall : ∀ d : Decoder, d.InBounds → d.rest.length ≤ B →
      Settles (fun n => decodeBin env cu16 n e true (some o) (env.zero e)) d) :
    ∀ (k : Nat) (dec : Decoder), dec.InBounds → dec.rest.length ≤ B →
      Settles (fun n => decodeElems (decodeBin env cu16 n) e o (List.replicate k (env.zero e))) dec
  | 0, _, _, _ => Settles.of_halts (Halts.pure _)
  | k + 1, dec, hin, hB => (hcall dec hin hB).bind fun _ d ⟨N, hN⟩ => by
    obtain ⟨hd, hle⟩ := (advances_decodeBin cu16 hm N e true (some o) _).ok_rest hin (hN N le_rfl)
    exact (settles_decodeElems hm hcall k d hd (hle.trans hB)).bind fun _ _ _ =>
      Settles.of_halts (Halts.pure _)

/-- The invariant of the field loop of a call on a struct of type `t`, at a reached site
with flags `o` and `s`, that began with `b` bytes left, after the fields `pre`: the session
is in bounds with at most `b` bytes left; either a byte has been read since, or the call is
not optional, no field of `pre` reads a byte and the struct's site is ranked at most `ρ`;
and every size in the loop's map was handed down by a `sizeof=` field of `pre`. -/
structure FieldsInv (b ρ : Nat) (t : GoType) (o s : Bool) (pre : List (Field GoType))
    (m : String → Option Int) (dec : Decoder) : Prop where
  inBounds : dec.InBounds
  rest_le : dec.rest.length ≤ b
  reach : Reaches env root ⟨t, o, s⟩
  read_or_first : dec.rest.length < b ∨
    o = false ∧ (∀ g ∈ pre, g.readsAByte R.reads = false) ∧ R.rank ⟨t, false, s⟩ ≤ ρ
  sizes : ∀ nm, m nm ≠ none → ∃ g ∈ pre, g.tag.sizeOf ≠ "" ∧ g.tag.sizeOf = nm

namespace FieldsInv

variable {R} {b ρ : Nat} {t : GoType} {o s : Bool} {pre : List (Field GoType)}
  {m : String → Option Int} {dec : Decoder}

/-- The call at the next field is at a reached site, below the struct's: a byte has been
read, or no field before it reads one and its site is ranked lower. -/
theorem call_below (hI : FieldsInv R b ρ t o s pre m dec) {f : Field GoType}
    {post : List (Field GoType)} (ht : env.underlying t = .struct (pre ++ f :: post))
    (hexp : f.exported = true) (hskip : f.tag.skip = false) :
    Reaches env root ((fieldOption f m).site f.type) ∧
      (dec.rest.length < b ∨ dec.rest.length = b ∧ R.rank ((fieldOption f m).site f.type) < ρ) := by
  have hs : (m f.name).isSome = true → ∃ g ∈ pre, g.tag.sizeOf ≠ "" ∧ g.tag.sizeOf = f.name :=
    fun hs => hI.sizes f.name (Option.isSome_iff_ne_none.mp hs)
  refine ⟨.field hI.reach ht hexp hskip hs, ?_⟩
  rcases hI.read_or_first with h | ⟨rfl, hpre, hρ⟩
  · exact .inl h
  · rcases Nat.lt_or_eq_of_le hI.rest_le with h | h
    · exact .inl h
    · exact .inr ⟨h, lt_of_lt_of_le (R.field_lt hI.reach ht hexp hskip hpre hs) hρ⟩

/-- The invariant after the next field `f`, which left the session at `d` and the map at
`m'`: a field that reads a byte has read one. -/
theorem next (hI : FieldsInv R b ρ t o s pre m dec) {f : Field GoType}
    {m' : String → Option Int} {d : Decoder} (hd : d.InBounds)
    (hle : d.rest.length ≤ dec.rest.length)
    (hread : f.readsAByte R.reads = true → d.rest.length < dec.rest.length)
    (hm : ∀ nm, m' nm ≠ none → m nm ≠ none ∨ f.tag.sizeOf ≠ "" ∧ f.tag.sizeOf = nm) :
    FieldsInv R b ρ t o s (pre ++ [f]) m' d where
  inBounds := hd
  rest_le := hle.trans hI.rest_le
  reach := hI.reach
  read_or_first := by
    rcases hI.read_or_first with h | ⟨ho, hpre, hρ⟩
    · exact .inl (by omega)
    · cases hf : f.readsAByte R.reads
      · refine .inr ⟨ho, fun g hg => ?_, hρ⟩
        rcases List.mem_append.mp hg with hg | hg
        · exact hpre g hg
        · rw [List.mem_singleton.mp hg, hf]
      · have := hread hf
        have := hI.rest_le
        exact .inl (by omega)
  sizes nm h := by
    rcases hm nm h with h' | h'
    · obtain ⟨g, hg, hgs⟩ := hI.sizes nm h'
      exact ⟨g, List.mem_append_left _ hg, hgs⟩
    · exact ⟨f, List.mem_append_right _ (List.mem_singleton_self f), h'⟩

/-- The invariant after a field handled without a call. -/
theorem skip (hI : FieldsInv R b ρ t o s pre m dec) {f : Field GoType}
    (hf : f.readsAByte R.reads = false) : FieldsInv R b ρ t o s (pre ++ [f]) m dec :=
  hI.next hI.inBounds le_rfl (fun h => absurd (hf.symm.trans h) Bool.false_ne_true)
    fun _ h => .inl h

end FieldsInv

/-- The field loop settles, field by field, under its invariant. -/
theorem settles_decodeFields (hm : env.MethodsAdvance) {b ρ : Nat} (ih : SettlesBelow cu16 R b ρ)
    {t : GoType} {o s : Bool} :
    ∀ (fs pre : List (Field GoType)) (m : String → Option Int) (seen : Bool) (dec : Decoder),
      env.underlying t = .struct (pre ++ fs) → FieldsInv R b ρ t o s pre m dec →
      Settles (fun n => decodeFields env (decodeBin env cu16 n) fs (zeroFields env.namedZero fs)
        m seen) dec
  | [], _, _, _, _, _, _ => Settles.of_halts (Halts.pure _)
  | f :: fs, pre, m, seen, dec, ht, hI => by
    have ht' : env.underlying t = .struct ((pre ++ [f]) ++ fs) := by
      rw [ht, List.append_assoc]; rfl
    have ih' := settles_decodeFields hm ih (t := t) (o := o) (s := s) fs (pre ++ [f])
    simp only [zeroFields, decodeFields]
    by_cases hskip : f.tag.skip = true
    · simp only [if_pos hskip]
      exact (ih' m seen dec ht' (hI.skip (by simp [Field.readsAByte, hskip]))).map _
    simp only [if_neg hskip]
    by_cases hord : (!f.tag.binaryExtension && seen) = true
    · simp only [if_pos hord]
      exact Settles.of_halts (Halts.panic _)
    simp only [if_neg hord]
    refine (Settles.of_halts ?_).bind fun exhausted d₁ ⟨N, hN⟩ => ?_
    · split
      · exact halts_unread.map _
      · exact Halts.pure _
    obtain ⟨rfl, hex⟩ : d₁ = dec ∧ (exhausted = true → f.tag.binaryExtension = true) := by
      have h := hN N le_rfl
      split at h
      · rw [DecM.map_apply, unread_of_inBounds hI.inBounds] at h
        cases h
        exact ⟨rfl, fun _ => ‹_›⟩
      · cases h
        exact ⟨rfl, nofun⟩
    by_cases hx : (exhausted || !f.exported) = true
    · simp only [if_pos hx]
      refine (ih' m _ d₁ ht' (hI.skip ?_)).map _
      simp only [Bool.or_eq_true, Bool.not_eq_true'] at hx
      rcases hx with hx | hx <;> simp [Field.readsAByte, hx, hex]
    simp only [if_neg hx]
    have hexp : f.exported = true := by simp at hx; exact hx.2
    obtain ⟨hreach, hbelow⟩ := hI.call_below ht hexp (by simpa using hskip)
    refine (ih f.type (fieldOption f m) d₁ hreach hI.inBounds hbelow).bind
      fun v d ⟨N', hN'⟩ => ?_
    have hadv := advances_decodeBin cu16 hm
    obtain ⟨hd, hle⟩ := (hadv N' _ true _ _).ok_rest hI.inBounds (hN' N' le_rfl)
    have hread : f.readsAByte R.reads = true → d.rest.length < d₁.rest.length := fun hr =>
      (decodeBin_consumes cu16 R.reads_step hm N' _ _ (Field.readsAByte_call hr)).rest_lt
        (hadv _ _ _ _ _) hI.inBounds (hN' N' le_rfl)
    refine (Settles.of_halts ?_).bind fun m' d' ⟨N'', hN''⟩ => ?_
    · split
      · exact (halts_sizeof env _ _).map _
      · exact Halts.pure _
    obtain ⟨rfl, hm'⟩ : d' = d ∧
        ∀ nm, m' nm ≠ none → m nm ≠ none ∨ f.tag.sizeOf ≠ "" ∧ f.tag.sizeOf = nm := by
      have h := hN'' N'' le_rfl
      split at h
      · rename_i hne
        rcases sizeof_cases env f.type v with ⟨i, hi⟩ | hi <;> rw [DecM.map_apply, hi] at h <;>
          cases h
        refine ⟨rfl, fun nm hnm => ?_⟩
        by_cases hk : nm = f.tag.sizeOf
        · exact .inr ⟨hne, hk.symm⟩
        · rw [Function.update_noteq hk] at hnm
          exact .inl hnm
      · cases h
        exact ⟨rfl, fun _ h => .inl h⟩
    exact (ih' m' _ d' ht' (hI.next hd hle hread hm')).map _

/-- The dispatch at a zero value of type `u` at a reached site settles when the calls below
`(b, ρ)` do: it makes its calls after a read, or, when no byte has been read since the call
began, at sites ranked below `u`'s. -/
theorem settles_decodeKind (hm : env.MethodsAdvance) {b ρ : Nat} (ih : SettlesBelow cu16 R b ρ)
    (o : FieldOption) (u : GoType) (hreach : Reaches env root (o.site u)) {dec : Decoder}
    (hin : dec.InBounds) (hb : dec.rest.length ≤ b)
    (hρ : dec.rest.length < b ∨
      o.optionalField = false ∧ R.rank ⟨u, false, o.sizeOfSlice.isSome⟩ ≤ ρ) :
    Settles (fun n => decodeKind env cu16 (decodeBin env cu16 n) o u (env.zero u)) dec := by
  have hcall : ∀ {e : GoType}, Reaches env root (o.site e) →
      (o.optionalField = false →
        R.rank ⟨e, false, o.sizeOfSlice.isSome⟩ < R.rank ⟨u, false, o.sizeOfSlice.isSome⟩) →
      ∀ d : Decoder, d.InBounds → d.rest.length ≤ dec.rest.length →
        Settles (fun n => decodeBin env cu16 n e true (some o) (env.zero e)) d := by
    intro e hre he d hd hle
    refine ih e o d hre hd ?_
    rcases hρ with h | ⟨ho, hr⟩
    · exact .inl (by omega)
    · rcases Nat.lt_or_eq_of_le (hle.trans hb) with h | h
      · exact .inl h
      · refine .inr ⟨h, ?_⟩
        show R.rank ⟨e, o.optionalField, _⟩ < ρ
        have := he ho
        rw [ho]
        omega
  have hreach0 : o.optionalField = false → Reaches env root ⟨u, false, o.sizeOfSlice.isSome⟩ :=
    fun ho => ho ▸ hreach
  unfold decodeKind
  generalize heq : env.underlying u = k
  cases k
  case string => exact Settles.of_halts ((halts_readString cu16).map _)
  case uint8 => exact Settles.of_halts (halts_readByte.map _)
  case int8 => exact Settles.of_halts (halts_readInt8.map _)
  case int16 => exact Settles.of_halts ((halts_readInt16 _).map _)
  case int32 => exact Settles.of_halts ((halts_readInt32 _).map _)
  case int64 => exact Settles.of_halts ((halts_readInt64 _).map _)
  case uint16 => exact Settles.of_halts ((halts_readFixed _ _ _).map _)
  case uint32 => exact Settles.of_halts ((halts_readFixed _ _ _).map _)
  case uint64 => exact Settles.of_halts ((halts_readUint64 _).map _)
  case float32 => exact Settles.of_halts ((halts_readFloat32 _).map _)
  case float64 => exact Settles.of_halts ((halts_readFloat64 _).map _)
  case bool => exact Settles.of_halts (halts_readBool.map _)
  case iface => exact Settles.of_halts (Halts.pure _)
  case array k e =>
    rw [show (env.zero u).elems = List.replicate k (env.zero e) by
      rw [env.zero_eq_of_underlying heq]; rfl]
    exact (settles_decodeElems cu16 hm (hcall (.array hreach heq)
      fun ho => R.array_lt (hreach0 ho) heq) k dec hin le_rfl).map _
  case slice e =>
    refine (Settles.of_halts ?_).bind fun l d ⟨N, hN⟩ => ?_
    · split
      · exact Halts.pure _
      · exact halts_readUvarint64.map _
    obtain ⟨hd, hsized⟩ : d.InBounds ∧
        (o.sizeOfSlice.isSome = true ∧ d = dec ∨ d.rest.length < dec.rest.length) := by
      have h := hN N le_rfl
      cases hs : o.sizeOfSlice with
      | some l' =>
        rw [hs] at h
        cases h
        exact ⟨hin, .inl ⟨rfl, rfl⟩⟩
      | none =>
        rw [hs] at h
        obtain ⟨x, hx⟩ := DecM.map_eq_ok h
        exact ⟨(advances_readUvarint64.ok_rest hin hx).1,
          .inr (consumes_readUvarint64.rest_lt advances_readUvarint64 hin hx)⟩
    rcases makeSlice_cases env e l with ⟨p, hp, -⟩ | ⟨-, hp⟩
    · simp only [hp, DecM.panic_bind]
      exact Settles.of_halts (Halts.panic _)
    simp only [hp, DecM.pure_bind]
    refine (settles_decodeElems cu16 hm (B := d.rest.length) (fun d' hd' hle => ?_) l.toNat d hd
      le_rfl).map _
    rcases hsized with ⟨hs, rfl⟩ | hlt
    · exact hcall (.slice hreach heq)
        (fun ho => by rw [hs]; exact R.slice_lt (hs ▸ hreach0 ho) heq) d' hd' hle
    · exact ih e o d' (.slice hreach heq) hd' (.inl (by omega))
  case struct fs =>
    rw [show (env.zero u).fields = zeroFields env.namedZero fs by
      rw [env.zero_eq_of_underlying heq]; rfl]
    exact (settles_decodeFields cu16 R hm ih fs [] _ false dec heq
      ⟨hin, hb, hreach, hρ.imp_right fun h => ⟨h.1, nofun, h.2⟩, fun _ h => absurd rfl h⟩).map _
  all_goals exact Settles.of_halts (Halts.fail _)

/-- What follows `indirect` settles: a custom decoder returns, and the dispatch at the zero
value `indirect` stopped at settles. -/
theorem settles_decodeValue (hm : env.MethodsAdvance) (hh : env.MethodsHalt) {b ρ : Nat}
    (ih : SettlesBelow cu16 R b ρ) (o : FieldOption) {t : GoType} {a : Indirection}
    (ha : Stopped R (o.site t) a) {dec : Decoder} (hin : dec.InBounds)
    (hb : dec.rest.length ≤ b)
    (hρ : dec.rest.length < b ∨ o.optionalField = false ∧ R.rank (o.site t) ≤ ρ) :
    Settles (fun n => decodeValue env cu16 (decodeBin env cu16 n) o a.unmarshaler a.value a.root)
      dec := by
  rcases a with ⟨_ | ⟨um, q⟩, rv, r⟩
  · cases rv with
    | invalid => exact Settles.of_halts (Halts.panic _)
    | loc u q _ =>
      obtain ⟨hq, hreach, hr⟩ := ha
      have hr' : R.rank ⟨u, o.optionalField, o.sizeOfSlice.isSome⟩ ≤ R.rank (o.site t) := hr
      show Settles (fun n => (r.set q ·) <$> decodeKind env cu16 (decodeBin env cu16 n) o u
        (r.at q)) dec
      rw [show r.at q = env.zero u by simp [Value.at, hq]]
      refine (settles_decodeKind cu16 R hm ih o u hreach hin hb
        (hρ.imp_right fun h => ⟨h.1, ?_⟩)).map _
      rw [h.1] at hr'
      exact hr'.trans h.2
    | addr => exact Settles.of_halts (Halts.fail _)
  · obtain ⟨t', ht'⟩ := ha
    exact Settles.of_halts ((hh t' um ht' _).map _)

/-- One call on a settable zero destination at a reached site settles when every call below
it does: below the bytes it starts with and its own site. -/
theorem settles_decodeBin_step (hm : env.MethodsAdvance) (hh : env.MethodsHalt) {t : GoType}
    {o : FieldOption} (hreach : Reaches env root (o.site t)) {dec : Decoder} (hin : dec.InBounds)
    (ih : SettlesBelow cu16 R dec.rest.length (R.rank (o.site t))) :
    Settles (fun n => decodeBin env cu16 n t true (some o) (env.zero t)) dec := by
  refine Settles.of_succ ?_
  obtain ⟨N, res, hN, hres⟩ := indirect_zero_settles R o.optionalField o.sizeOfSlice.isSome
    hreach (p := []) (r := env.zero t) rfl
  cases ho : o.optionalField
  · simp only [decodeBin_eq_resolve env cu16 (o := some o) ho]
    exact Settles.resolve_bind ⟨N, hN⟩ fun a ha =>
      settles_decodeValue cu16 R hm hh ih o (hres a ha) hin le_rfl (.inr ⟨ho, le_rfl⟩)
  · obtain ⟨N₁, res₁, hN₁, hres₁⟩ :=
      indirect_zero_optional_settles env (p := []) (r := env.zero t) rfl
    simp only [decodeBin_eq_resolve_optional env cu16 ho]
    refine Settles.resolve_bind ⟨N₁, hN₁⟩ fun a ha =>
      (Settles.of_halts (halts_readPresence a.value)).bind fun b d ⟨N', hN'⟩ => ?_
    have hp := hN' N' le_rfl
    obtain ⟨hd, -⟩ := (advances_readPresence a.value).ok_rest hin hp
    have hlt := (consumes_readPresence a.value).rest_lt (advances_readPresence a.value) hin hp
    by_cases hb : b = 0
    · simp only [if_pos hb]
      exact Settles.of_halts (halts_setZero env _ _)
    simp only [if_neg hb]
    rcases hres₁ a ha with hv | ⟨hv, hr⟩
    · rw [hv]
      exact ⟨0, .panic .reflectZeroValue, nofun, fun _ _ => rfl⟩
    · rw [hv, hr]
      exact Settles.resolve_bind ⟨N, hN⟩ fun a' ha' =>
        settles_decodeValue cu16 R hm hh ih o (hres a' ha') hd hlt.le (.inl hlt)

/-- Every call at a reached site below every `(b, ρ)` settles: by induction on the bytes
left, and for as many bytes left, on the rank of the call site. -/
theorem settlesBelow (hm : env.MethodsAdvance) (hh : env.MethodsHalt) (b ρ : Nat) :
    SettlesBelow cu16 R b ρ := by
  induction b using Nat.strong_induction_on generalizing ρ with
  | _ b ihb =>
    induction ρ using Nat.strong_induction_on with
    | _ ρ ihρ =>
      intro t o dec hreach hin h
      refine settles_decodeBin_step cu16 R hm hh hreach hin ?_
      rcases h with h | ⟨rfl, h⟩
      · exact ihb _ h _
      · exact ihρ _ h

end Settle

/-- With a ranking of the call sites a decode of `root` reaches, a call of `decodeBin` on a
settable zero destination at a reached site settles: from some fuel on it has one outcome,
and it is not running out of fuel. -/
theorem decodeBin_settles {env : TypeEnv} (cu16 : CompactU16) {root : GoType}
    (R : Ranking env root) (hm : env.MethodsAdvance) (hh : env.MethodsHalt) (t : GoType)
    (o : FieldOption) (hreach : Reaches env root (o.site t)) {dec : Decoder} (hin : dec.InBounds) :
    Settles (fun n => decodeBin env cu16 n t true (some o) (env.zero t)) dec :=
  settlesBelow cu16 R hm hh (dec.rest.length + 1) 0 t o dec hreach hin
    (.inl (Nat.lt_succ_self _))

/-- The field of `type Tree struct { Kids []Tree }`: each level reads its count. -/
def treeFields : List (Field GoType) :=
  [⟨"Kids", true, ⟨"", false, .littleEndian, false, false⟩, .slice (.named "Tree")⟩]

/-- The fields of `type List struct { Val uint8; Next *List }`: each node reads `Val`
before it goes down `Next`. -/
def listFields : List (Field GoType) :=
  [⟨"Val", true, ⟨"", false, .littleEndian, false, false⟩, .uint8⟩,
    ⟨"Next", true, ⟨"", false, .littleEndian, false, false⟩, .ptr (.named "List")⟩]

/-- `struct { X uint8 }`. -/
def byteStruct : GoType :=
  .struct [⟨"X", true, ⟨"", false, .littleEndian, false, false⟩, .uint8⟩]

/-- The fields of `type T struct { A struct { X uint8 }; Next *T }`: each node reads `A.X`
before it goes down `Next`. -/
def nestedFields : List (Field GoType) :=
  [⟨"A", true, ⟨"", false, .littleEndian, false, false⟩, byteStruct⟩,
    ⟨"Next", true, ⟨"", false, .littleEndian, false, false⟩, .ptr (.named "T")⟩]

/-- A program with the recursive types `Tree`, `List`, `type S []S` and `T`. -/
def linkedEnv : TypeEnv where
  decl n :=
    if n = "Tree" then ⟨.struct treeFields, none⟩
    else if n = "List" then ⟨.struct listFields, none⟩
    else if n = "S" then ⟨.slice (.named "S"), none⟩
    else if n = "T" then ⟨.struct nestedFields, none⟩
    else ⟨.bool, none⟩
  namedZero n :=
    if n = "Tree" then .struct [.slice []]
    else if n = "List" then .struct [.uint 0, .ptr none]
    else if n = "S" then .slice []
    else if n = "T" then .struct [.struct [.uint 0], .ptr none]
    else .bool false
  namedLayout n :=
    if n = "Tree" ∨ n = "S" then (24, 8) else if n = "List" ∨ n = "T" then (16, 8) else (1, 1)
  underlying_ne_named n m := by dsimp only; split_ifs <;> simp
  namedZero_eq n := by
    dsimp only
    by_cases h1 : n = "Tree"
    · subst h1; rfl
    by_cases h2 : n = "List"
    · subst h2; rfl
    by_cases h3 : n = "S"
    · subst h3; rfl
    by_cases h4 : n = "T"
    · subst h4; rfl
    simp only [h1, h2, h3, h4, if_false]; rfl
  namedLayout_eq n := by
    dsimp only
    by_cases h1 : n = "Tree"
    · subst h1; rfl
    by_cases h2 : n = "List"
    · subst h2; rfl
    by_cases h3 : n = "S"
    · subst h3; rfl
    by_cases h4 : n = "T"
    · subst h4; rfl
    simp only [h1, h2, h3, h4, if_false, or_self]; rfl
  no_methods n h := by dsimp only at h; split_ifs at h <;> simp at h

theorem linkedEnv_decl (n : String) :
    (linkedEnv.decl n).underlying = .struct treeFields ∨
      (linkedEnv.decl n).underlying = .struct listFields ∨
      (linkedEnv.decl n).underlying = .slice (.named "S") ∨
      (linkedEnv.decl n).underlying = .struct nestedFields ∨
      (linkedEnv.decl n).underlying = .bool := by
  simp only [linkedEnv]
  split_ifs <;> simp

theorem linkedEnv_methodOf (t : GoType) : linkedEnv.methodOf t = none := by
  cases t with
  | ptr e =>
    cases e <;> first | rfl | (simp only [TypeEnv.methodOf, linkedEnv]; split_ifs <;> rfl)
  | _ => rfl

theorem linkedEnv_sizeofFree (n : String) : (linkedEnv.decl n).underlying.sizeofFree = true := by
  rcases linkedEnv_decl n with h | h | h | h | h <;> rw [h] <;> rfl

/-- The types `linkedEnv`'s rankings count as reading a byte: the kinds read directly, and
the structs with an exported field of such a kind. -/
def linkedReads (t : GoType) : Bool :=
  match linkedEnv.underlying t with
  | .struct fs => fs.any fun g =>
      g.exported && !g.tag.skip && !g.tag.binaryExtension && (linkedEnv.underlying g.type).isScalar
  | u => u.isScalar

theorem linkedReads_of_isScalar {t : GoType} (h : (linkedEnv.underlying t).isScalar = true) :
    linkedReads t = true := by
  unfold linkedReads
  split
  · rename_i hs
    rw [hs] at h
    cases h
  · exact h

theorem linkedReads_step {t : GoType} (h : linkedReads t = true) :
    ReadsStep linkedEnv linkedReads t := by
  refine ⟨linkedEnv_methodOf _, ?_⟩
  unfold linkedReads at h
  split at h
  · rename_i fs hfs
    obtain ⟨g, hg, hr⟩ := List.any_eq_true.mp h
    simp only [Bool.and_eq_true] at hr
    refine .inr (.inr (.inr ⟨fs, hfs, g, hg, ?_⟩))
    simp only [Field.readsAByte, hr, linkedReads_of_isScalar hr.2, Bool.or_true, Bool.and_self]
  · exact .inl h

mutual
/-- The rank of a site, when every defined type ranks `2`: one more than the element's for
a pointer, an array and a sized slice, more than every field's for a struct literal, and
`0` for an unsized slice, which reads its count first, and for the kinds read directly. -/
def typeRank : GoType → Bool → Nat
  | .named _, _ => 2
  | .ptr e, s | .array _ e, s => typeRank e s + 1
  | .slice e, true => typeRank e true + 1
  | .struct fs, _ => fieldsRank fs + 1
  | _, _ => 0

/-- The ranks of a struct literal's fields, sized and not. -/
def fieldsRank : List (Field GoType) → Nat
  | [] => 0
  | f :: fs => typeRank f.type false + typeRank f.type true + fieldsRank fs
end

theorem typeRank_le_fieldsRank {f : Field GoType} :
    ∀ {fs : List (Field GoType)}, f ∈ fs → ∀ s, typeRank f.type s ≤ fieldsRank fs
  | _ :: _, .head _, s => by cases s <;> simp only [fieldsRank] <;> omega
  | _ :: _, .tail _ h, s => by
    have := typeRank_le_fieldsRank h s
    simp only [fieldsRank]
    omega

/-- In a two-field struct whose first field reads a byte, a field that no field before it
reads a byte for is the first. -/
theorem first_of_two {a b f : Field GoType} {pre post : List (Field GoType)}
    (ht : [a, b] = pre ++ f :: post) (hpre : ∀ g ∈ pre, g.readsAByte linkedReads = false)
    (ha : a.readsAByte linkedReads = true) : pre = [] ∧ f = a := by
  rcases pre with _ | ⟨g, _ | ⟨g', pre⟩⟩
  · simp only [List.nil_append, List.cons.injEq] at ht
    exact ⟨rfl, ht.1.symm⟩
  · simp only [List.singleton_append, List.cons.injEq] at ht
    obtain ⟨rfl, -⟩ := ht
    exact absurd (hpre _ (List.mem_singleton_self _)) (by simp [ha])
  · simp at ht

/-- A field of one of `linkedEnv`'s structs that no field before it reads a byte for is the
first, and ranks below the struct. -/
theorem linkedEnv_first_field {n : String} {pre post : List (Field GoType)} {f : Field GoType}
    (ht : (linkedEnv.decl n).underlying = .struct (pre ++ f :: post))
    (hpre : ∀ g ∈ pre, g.readsAByte linkedReads = false) :
    pre = [] ∧ typeRank f.type false < 2 := by
  rcases linkedEnv_decl n with h | h | h | h | h <;> rw [h] at ht
  · injection ht with ht
    rcases pre with _ | ⟨g, pre⟩
    · simp only [List.nil_append, treeFields, List.cons.injEq] at ht
      obtain ⟨rfl, -⟩ := ht
      exact ⟨rfl, by decide⟩
    · simp [treeFields] at ht
  · injection ht with ht
    obtain ⟨rfl, rfl⟩ := first_of_two ht hpre (by decide)
    exact ⟨rfl, by decide⟩
  · cases ht
  · injection ht with ht
    obtain ⟨rfl, rfl⟩ := first_of_two ht hpre (by decide)
    exact ⟨rfl, by decide⟩
  · cases ht

/-- The ranking of the sites a decode of a type with no `sizeof=` field reaches in
`linkedEnv`: none of them is sized, and `typeRank` drops along every call. -/
def linkedRanking (root : GoType) (hroot : root.sizeofFree = true) : Ranking linkedEnv root where
  rank c := typeRank c.type c.sized
  reads := linkedReads
  reads_step := linkedReads_step
  ptr_lt {t e o s} _ ht _ := by
    cases t with
    | ptr e' => cases ht; exact Nat.lt_succ_self _
    | named n =>
      rcases linkedEnv_decl n with h | h | h | h | h <;>
        rw [TypeEnv.underlying_named, h] at ht <;> cases ht
    | _ => cases ht
  array_lt {t e k s} _ ht := by
    cases t with
    | array k' e' => cases ht; exact Nat.lt_succ_self _
    | named n =>
      rcases linkedEnv_decl n with h | h | h | h | h <;>
        rw [TypeEnv.underlying_named, h] at ht <;> cases ht
    | _ => cases ht
  slice_lt hr _ := by
    have := (Reaches.unsized linkedEnv_sizeofFree hroot hr).2
    cases this
  field_lt {t pre post f s s'} hr ht _ _ hpre hs' := by
    show typeRank f.type s' < typeRank t s
    cases t with
    | struct fs =>
      cases ht
      have := typeRank_le_fieldsRank (List.mem_append_right pre (List.mem_cons_self f post)) s'
      show _ < fieldsRank _ + 1
      omega
    | named n =>
      obtain ⟨rfl, hf⟩ := linkedEnv_first_field ht hpre
      cases s'
      · exact hf
      · obtain ⟨g, hg, -⟩ := hs' rfl
        cases hg
    | _ => cases ht

theorem linkedEnv_methodsAdvance : linkedEnv.MethodsAdvance := fun t u h => by
  rw [linkedEnv_methodOf] at h
  cases h

theorem linkedEnv_methodsHalt : linkedEnv.MethodsHalt := fun t u h => by
  rw [linkedEnv_methodOf] at h
  cases h

end BinDecoder
