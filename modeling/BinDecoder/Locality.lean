import BinDecoder.Exact

/-!
# Reads that depend only on the bytes they consume

`Exact m`: whenever `m` succeeds in a Bin session, it has consumed some `k` of the unread
bytes, and it reads those `k` bytes as the same value (`ReadsAs`) wherever they stand and
whatever follows them.  `Exact` composes along `>>=` (`Exact.bind`), and every read that
`decodeBin` makes in the Bin encoding has it: the fixed-width reads because they check
the width they read, `ReadUvarint64` because `binary.Uvarint` stops at its last byte
(`uvarint_split`), and `ReadByteSlice` because its payload is the bytes right after the
length, however Go's `int` arithmetic computes where they end.

The one read of `decodeBin` without it is the test of `decodeStruct` for a
`binary_extension` field, which asks whether any byte is left at all (`unread`).
-/

namespace BinDecoder

open Decoder

/-- Whenever `m` succeeds, it has consumed `k` unread bytes, and it reads those bytes as
the same value wherever they stand. -/
def Exact {α : Type} (m : DecM α) : Prop :=
  ∀ dec a d, dec.InBounds → dec.encoding = .bin → m dec = .ok a d →
    ∃ k ≤ dec.rest.length, d = dec.setPos (dec.pos + k) ∧ ReadsAs m (dec.rest.take k) a

theorem Decoder.rest_setPos_drop {dec : Decoder} (hin : dec.InBounds) {k : Nat}
    (hk : k ≤ dec.rest.length) : (dec.setPos (dec.pos + k)).rest = dec.rest.drop k := by
  have h := rest_setPos hin.1 (List.take_append_drop k dec.rest).symm
  rwa [List.length_take, min_eq_left hk] at h

namespace Exact

variable {α β : Type}

theorem pure (a : α) : Exact (Pure.pure a : DecM α) := by
  intro dec a' d _ _ h
  simp only [DecM.pure_apply, Outcome.ok.injEq] at h
  obtain ⟨rfl, rfl⟩ := h
  exact ⟨0, Nat.zero_le _, by simp, ReadsAs.pure a⟩

theorem panic (p : Panic) : Exact (DecM.panic p : DecM α) := by
  intro dec a d _ _ h; cases h

theorem fail (e : DecodeError) : Exact (DecM.fail e : DecM α) := by
  intro dec a d _ _ h; cases h

theorem bind {m : DecM α} {f : α → DecM β} (hm : Exact m) (hf : ∀ a, Exact (f a)) :
    Exact (m >>= f) := by
  intro dec c d hin hbin h
  rw [DecM.bind_apply] at h
  cases hx : m dec with
  | ok a d₁ =>
    rw [hx, Outcome.bind_ok] at h
    obtain ⟨k₁, hk₁, rfl, hr₁⟩ := hm dec a _ hin hbin hx
    obtain ⟨k₂, hk₂, rfl, hr₂⟩ := hf a _ c d (inBounds_setPos_of_le hin hk₁) hbin h
    rw [rest_setPos_drop hin hk₁] at hk₂ hr₂
    rw [List.length_drop] at hk₂
    refine ⟨k₁ + k₂, by omega, by simp [add_assoc], ?_⟩
    rw [List.take_add]
    exact hr₁.bind hr₂
  | err _ _ | panic _ | outOfFuel => simp [hx] at h

theorem map {m : DecM α} (f : α → β) (hm : Exact m) : Exact (f <$> m) :=
  hm.bind fun a => Exact.pure (f a)

/-- A step after `indirect`, which reads nothing. -/
theorem resolve_bind {o : Option (Except Panic α)} {f : α → DecM β}
    (hf : ∀ a, o = some (.ok a) → Exact (f a)) : Exact (resolve o >>= f) := by
  intro dec c d hin hbin h
  rcases o with _ | _ | a
  · cases h
  · cases h
  · exact hf a rfl dec c d hin hbin h

/-- Exactness looks at Bin sessions only. -/
theorem congr_bin {m m' : DecM α} (h : ∀ dec, dec.encoding = .bin → m' dec = m dec)
    (hm : Exact m) : Exact m' := by
  intro dec a d hin hbin hd
  obtain ⟨k, hk, rfl, hr⟩ := hm dec a _ hin hbin (by rw [← h dec hbin]; exact hd)
  exact ⟨k, hk, rfl, fun dec' s hin' hbin' h' => by rw [h dec' hbin']; exact hr dec' s hin' hbin' h'⟩

/-- A read of `w` bytes that reads any `w` bytes as some value and fails on fewer. -/
theorem of_width {m : DecM α} (w : Nat)
    (happ : ∀ bs : List UInt8, bs.length = w → ∃ a, ReadsAs m bs a)
    (hshort : ∀ dec a d, dec.InBounds → dec.rest.length < w → m dec ≠ .ok a d) : Exact m := by
  intro dec a d hin hbin h
  by_cases hw : dec.rest.length < w
  · exact absurd h (hshort dec a d hin hw)
  obtain ⟨a', ha'⟩ := happ (dec.rest.take w) (by simp; omega)
  have h' := ha' dec _ hin hbin (List.take_append_drop w dec.rest).symm
  rw [h, List.length_take, min_eq_left (by omega)] at h'
  cases h'
  exact ⟨w, by omega, rfl, ha'⟩

/-- A one-byte read. -/
theorem of_byte {m : DecM α} (g : UInt8 → α) (happ : ∀ b, ReadsAs m [b] (g b))
    (hshort : ∀ dec a d, dec.InBounds → dec.rest = [] → m dec ≠ .ok a d) : Exact m :=
  of_width 1 (fun bs hbs => by
      obtain ⟨b, rfl⟩ := List.length_eq_one.mp hbs
      exact ⟨g b, happ b⟩)
    fun dec a d hin hw => hshort dec a d hin (List.length_eq_zero.mp (by omega))

end Exact

/-! ## The reads of the Bin format -/

theorem exact_readByte : Exact readByte :=
  Exact.of_byte id readsAs_readByte fun _ _ _ hin h => by rw [readByte_nil hin h]; nofun

theorem exact_readBool : Exact readBool :=
  Exact.of_byte (· ≠ 0) readsAs_readBool fun dec _ _ hin h => by
    rw [readBool, remaining_eq_length_rest hin, h, if_pos (by simp)]; nofun

theorem exact_readPresence (rv : RValue) : Exact (readPresence rv) :=
  Exact.of_byte id (readsAs_readPresence rv) fun dec _ _ hin h => by
    unfold readPresence
    rw [readByte_nil hin h]
    dsimp only
    split <;> nofun

theorem exact_readInt8 : Exact readInt8 :=
  exact_readByte.bind fun _ => Exact.pure _

theorem exact_readFixed (what : String) {w : Nat} (hw : 0 < w) (order : ByteOrder) :
    Exact (readFixed what w order) :=
  Exact.of_width w (fun bs hbs => ⟨order.uint w bs, fun dec _ hin _ h => by
      rw [readFixed_append what order hin.1 h hbs hw, hbs]⟩)
    fun dec _ _ hin h => by rw [readFixed_short what order hin h]; nofun

theorem exact_readInt16 (order : ByteOrder) : Exact (readInt16 order) :=
  (exact_readFixed _ (by norm_num) order).bind fun _ => Exact.pure _

theorem exact_readInt32 (order : ByteOrder) : Exact (readInt32 order) :=
  (exact_readFixed _ (by norm_num) order).bind fun _ => Exact.pure _

theorem exact_readUint64 (order : ByteOrder) : Exact (readUint64 order) :=
  Exact.of_width 8 (fun bs hbs => ⟨order.uint 8 bs, fun dec _ hin _ h => by
      rw [readUint64_append order hin.1 h hbs, hbs]; rfl⟩)
    fun dec _ _ hin h => by rw [readUint64_short order hin h]; nofun

theorem exact_readInt64 (order : ByteOrder) : Exact (readInt64 order) :=
  (exact_readUint64 order).bind fun _ => Exact.pure _

theorem exact_readFloat32 (order : ByteOrder) : Exact (readFloat32 order) :=
  Exact.of_width 4 (fun bs hbs => ⟨order.uint 4 bs, fun dec _ hin hbin h => by
      rw [readFloat32_append order hin.1 h hbs hbin, hbs]; rfl⟩)
    fun dec _ _ hin h => by
      rw [readFloat32, remaining_eq_length_rest hin, if_pos (by exact_mod_cast h)]; nofun

theorem exact_readFloat64 (order : ByteOrder) : Exact (readFloat64 order) :=
  Exact.of_width 8 (fun bs hbs => ⟨order.uint 8 bs, fun dec _ hin hbin h => by
      rw [readFloat64_append order hin.1 h hbs hbin, hbs]; rfl⟩)
    fun dec _ _ hin h => by
      rw [readFloat64, remaining_eq_length_rest hin, if_pos (by exact_mod_cast h)]; nofun

/-- `ReadUvarint64` consumes the bytes of one varint and reads nothing after them. -/
theorem exact_readUvarint64 : Exact readUvarint64 := by
  intro dec a d hin _ h
  rw [readUvarint64_eq hin] at h
  split_ifs at h with hk
  cases h
  obtain ⟨pre, suf, hps, hpre, hlen⟩ := uvarint_split (by omega : 0 < (uvarint dec.rest).2)
  have htake : dec.rest.take pre.length = pre := by rw [hps, List.take_left]
  refine ⟨pre.length, by rw [hps, List.length_append]; omega, by rw [hlen], ?_⟩
  rw [htake, ← hpre]
  intro dec' s hin' _ h'
  have hv : uvarint dec'.rest = uvarint pre := by rw [h', uvarint_append (by rw [hpre]; omega)]
  rw [readUvarint64_eq hin', hv, if_neg (by rw [hpre]; omega), hpre, hlen]

theorem exact_readLength (cu16 : CompactU16) : Exact (readLength cu16) :=
  Exact.congr_bin (fun _ hbin => readLength_bin cu16 hbin)
    (exact_readUvarint64.bind fun v => Exact.pure (toInt v))

/-- `ReadByteSlice` consumes its length and the payload after it: the end it computes in
Go's `int` arithmetic is in the buffer only when it is where the payload ends. -/
theorem exact_readByteSlice (cu16 : CompactU16) : Exact (readByteSlice cu16) := by
  refine (exact_readLength cu16).bind fun L dec a d hin _ h => ?_
  have hl := length_rest hin
  have hlt := dec.data_lt_int
  simp only at h
  split_ifs at h with h₁
  simp only [DecM.bind_apply, sliceData] at h
  split_ifs at h with h₂ <;>
    simp only [Outcome.bind_ok, Outcome.bind_panic, Outcome.ok.injEq, reduceCtorEq] at h
  obtain ⟨rfl, rfl⟩ := h
  have hk : (wrapInt (dec.pos + L) - dec.pos).toNat ≤ dec.rest.length := by omega
  refine ⟨_, hk, by congr 1; omega, fun dec' s hin' _ h' => ?_⟩
  have hl' := length_rest hin'
  have hlt' := dec'.data_lt_int
  rw [h', List.length_append, List.length_take, min_eq_left hk] at hl'
  have hw : wrapInt (dec'.pos + L) = dec'.pos + (wrapInt (dec.pos + L) - dec.pos) := by
    have e : wrapInt (dec.pos + L) = (dec.pos + L + 2 ^ 63) % 2 ^ 64 - 2 ^ 63 := rfl
    have := hin'.1
    unfold wrapInt
    omega
  simp only [hw, List.length_take, min_eq_left hk]
  rw [if_neg (by omega)]
  simp only [DecM.bind_apply, sliceData]
  rw [if_pos ⟨hin'.1, by omega, by omega⟩]
  simp only [Outcome.bind_ok, drop_pos_eq_rest, h', add_sub_cancel_left]
  rw [List.take_left' (by rw [List.length_take, min_eq_left hk])]
  congr 2
  omega

theorem exact_readString (cu16 : CompactU16) : Exact (readString cu16) :=
  exact_readByteSlice cu16

end BinDecoder
