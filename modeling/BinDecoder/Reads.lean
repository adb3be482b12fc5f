import BinDecoder.Decoder

/-!
# The primitive reads: specifications

One lemma per read says what it does on a session whose cursor lies in the buffer
(`Decoder.InBounds`), in terms of the unread bytes `dec.rest`: it takes its bytes
off the front and moves the cursor past them, or it finds too few and fails.  The
decoder of `BinDecoder.DecodeBin` and the results about it use these lemmas and never
unfold a read.

`Sound m` says that `m` leaves the buffer and the encoding alone and keeps the cursor
in the buffer, whatever it returns; every read is sound (`setPosition` is not, see
`BinDecoder.Session`).
-/

namespace BinDecoder

namespace Decoder

/-- The cursor lies in the buffer. -/
def InBounds (dec : Decoder) : Prop := 0 ≤ dec.pos ∧ dec.pos ≤ dec.data.length

/-- The unread bytes. -/
def rest (dec : Decoder) : List UInt8 := dec.data.drop dec.pos.toNat

theorem inBounds_newDecoderWithEncoding (data : List UInt8) (h : data.length < 2 ^ 63)
    (enc : Encoding) : (newDecoderWithEncoding data h enc).InBounds :=
  ⟨le_rfl, Int.natCast_nonneg _⟩

theorem drop_pos_eq_rest (dec : Decoder) : dec.data.drop dec.pos.toNat = dec.rest := rfl

theorem data_lt_int (dec : Decoder) : (dec.data.length : Int) < 2 ^ 63 := by
  exact_mod_cast dec.data_lt

theorem remaining_eq {dec : Decoder} (h : dec.InBounds) :
    dec.remaining = dec.data.length - dec.pos := by
  have := dec.data_lt_int
  exact wrapInt_of_mem (by unfold InBounds at h; omega) (by unfold InBounds at h; omega)

theorem length_rest {dec : Decoder} (h : dec.InBounds) :
    (dec.rest.length : Int) = dec.data.length - dec.pos := by
  unfold InBounds at h
  rw [rest, List.length_drop]; omega

theorem remaining_eq_length_rest {dec : Decoder} (h : dec.InBounds) :
    dec.remaining = dec.rest.length := by
  rw [remaining_eq h, length_rest h]

theorem rest_setPos {dec : Decoder} {bs r : List UInt8} (h₀ : 0 ≤ dec.pos)
    (h : dec.rest = bs ++ r) : (dec.setPos (dec.pos + bs.length)).rest = r := by
  have : (dec.pos + bs.length).toNat = dec.pos.toNat + bs.length := by omega
  rw [rest, setPos_data, setPos_pos, this, ← List.drop_drop, ← rest, h, List.drop_left]

theorem inBounds_setPos {dec : Decoder} {bs r : List UInt8} (hin : dec.InBounds)
    (h : dec.rest = bs ++ r) : (dec.setPos (dec.pos + bs.length)).InBounds := by
  have hl := congrArg List.length h
  simp only [rest, List.length_drop, List.length_append] at hl
  unfold InBounds at hin
  constructor <;> simp only [setPos_pos, setPos_data] <;> omega

theorem inBounds_of_rest {dec : Decoder} {bs : List UInt8} (h₀ : 0 ≤ dec.pos)
    (h : dec.rest = bs) (hne : bs ≠ []) : dec.InBounds := by
  have hl := congrArg List.length h
  simp only [rest, List.length_drop] at hl
  have : 0 < bs.length := List.length_pos.mpr hne
  exact ⟨h₀, by omega⟩

theorem getD_of_rest {dec : Decoder} {b : UInt8} {r : List UInt8} (h : dec.rest = b :: r) :
    dec.data.getD dec.pos.toNat 0 = b := by
  have : (dec.data.drop dec.pos.toNat)[0]? = some b := by rw [← rest, h]; simp
  rw [List.getElem?_drop, Nat.add_zero] at this
  simp [List.getD_eq_getElem?_getD, this]

end Decoder

open Decoder

/-- The session an outcome leaves, if it leaves one. -/
def Outcome.dec? {α : Type} : Outcome α → Option Decoder
  | .ok _ d | .err _ d => some d
  | .panic _ | .outOfFuel => none

/-- `m` keeps the buffer and the encoding, and keeps an in-bounds cursor in bounds. -/
def Sound {α : Type} (m : DecM α) : Prop :=
  ∀ dec, dec.InBounds → ∀ d ∈ (m dec).dec?,
    d.data = dec.data ∧ d.encoding = dec.encoding ∧ d.InBounds

/-- `m` only ever moves an in-bounds cursor forward, over unread bytes, whatever it returns. -/
def Advances {α : Type} (m : DecM α) : Prop :=
  ∀ dec, dec.InBounds → ∀ d ∈ (m dec).dec?, ∃ k ≤ dec.rest.length, d = dec.setPos (dec.pos + k)

@[simp] theorem Decoder.setPos_setPos (dec : Decoder) (p q : Int) :
    (dec.setPos p).setPos q = dec.setPos q := rfl

@[simp] theorem Decoder.setPos_self (dec : Decoder) : dec.setPos dec.pos = dec := rfl

theorem Decoder.length_rest_setPos {dec : Decoder} (hin : dec.InBounds) (k : Nat) :
    (dec.setPos (dec.pos + k)).rest.length = dec.rest.length - k := by
  have := length_rest hin
  simp only [rest, List.length_drop, setPos_data, setPos_pos] at this ⊢
  omega

theorem Decoder.inBounds_setPos_of_le {dec : Decoder} (hin : dec.InBounds) {k : Nat}
    (hk : k ≤ dec.rest.length) : (dec.setPos (dec.pos + k)).InBounds := by
  have := length_rest hin
  unfold InBounds at hin ⊢
  simp only [setPos_pos, setPos_data]
  omega

/-- Staying put is advancing by nothing. -/
theorem Advances.stay (dec : Decoder) :
    ∃ k ≤ dec.rest.length, dec = dec.setPos (dec.pos + (k : Nat)) :=
  ⟨0, Nat.zero_le _, by simp⟩

/-- A move by `w` that the remaining-bytes check allowed. -/
theorem Advances.move {dec : Decoder} (hin : dec.InBounds) {w : Nat}
    (h : ¬ dec.remaining < w) :
    ∃ k ≤ dec.rest.length, dec.setPos (dec.pos + w) = dec.setPos (dec.pos + (k : Nat)) :=
  ⟨w, by rw [remaining_eq_length_rest hin] at h; omega, rfl⟩

theorem Advances.sound {α : Type} {m : DecM α} (h : Advances m) : Sound m := by
  intro dec hin d hd
  obtain ⟨k, hk, rfl⟩ := h dec hin d hd
  exact ⟨rfl, rfl, inBounds_setPos_of_le hin hk⟩

theorem Advances.pure {α : Type} (a : α) : Advances (pure a : DecM α) := by
  intro dec _ d hd
  simp only [DecM.pure_apply, Outcome.dec?, Option.mem_def, Option.some.injEq] at hd
  exact hd ▸ Advances.stay dec

theorem Advances.bind {α β : Type} {x : DecM α} {f : α → DecM β} (hx : Advances x)
    (hf : ∀ a, Advances (f a)) : Advances (x >>= f) := by
  intro dec hin d hd
  rw [DecM.bind_apply] at hd
  cases hxd : x dec with
  | ok a d₁ =>
    rw [hxd, Outcome.bind_ok] at hd
    obtain ⟨k₁, hk₁, rfl⟩ := hx dec hin _ (by rw [hxd]; rfl)
    obtain ⟨k₂, hk₂, rfl⟩ := hf a _ (inBounds_setPos_of_le hin hk₁) d hd
    rw [length_rest_setPos hin] at hk₂
    exact ⟨k₁ + k₂, by omega, by simp only [setPos_setPos, setPos_pos]; push_cast; ring_nf⟩
  | err e d₁ =>
    rw [hxd, Outcome.bind_err] at hd
    simp only [Outcome.dec?, Option.mem_def, Option.some.injEq] at hd
    exact hx dec hin _ (by rw [hxd, ← hd]; rfl)
  | panic p => rw [hxd, Outcome.bind_panic] at hd; cases hd
  | outOfFuel => rw [hxd, Outcome.bind_outOfFuel] at hd; cases hd

theorem Advances.map {α β : Type} {x : DecM α} (f : α → β) (hx : Advances x) :
    Advances (f <$> x) :=
  hx.bind fun a => Advances.pure (f a)

theorem Advances.panic {α : Type} (p : Panic) : Advances (DecM.panic p : DecM α) := by
  intro dec _ d hd; cases hd

theorem Advances.fail {α : Type} (e : DecodeError) : Advances (DecM.fail e : DecM α) := by
  intro dec _ d hd
  simp only [DecM.fail, Outcome.dec?, Option.mem_def, Option.some.injEq] at hd
  exact hd ▸ Advances.stay dec

/-! ## Single-byte and fixed-width reads -/

theorem readByte_cons {dec : Decoder} {b : UInt8} {r : List UInt8} (h₀ : 0 ≤ dec.pos)
    (h : dec.rest = b :: r) : readByte dec = .ok b (dec.setPos (dec.pos + 1)) := by
  have hin := inBounds_of_rest h₀ h (List.cons_ne_nil b r)
  have hlen := remaining_eq_length_rest hin
  rw [h, List.length_cons] at hlen
  rw [readByte, if_neg (by omega), if_neg (by omega), getD_of_rest h]

theorem readByte_nil {dec : Decoder} (hin : dec.InBounds) (h : dec.rest = []) :
    readByte dec = .err (.required "" 1 0) dec := by
  have hlen := remaining_eq_length_rest hin
  rw [h, List.length_nil, Nat.cast_zero] at hlen
  rw [readByte, hlen, if_pos (by omega)]

/-- In bounds, `ReadByte` reads the next byte or finds none. -/
theorem readByte_inBounds {dec : Decoder} (hin : dec.InBounds) :
    readByte dec = .err (.required "" 1 0) dec ∨
      ∃ b, readByte dec = .ok b (dec.setPos (dec.pos + 1)) := by
  cases h : dec.rest with
  | nil => exact .inl (readByte_nil hin h)
  | cons b r => exact .inr ⟨b, readByte_cons hin.1 h⟩

theorem readFixed_append {dec : Decoder} {bs r : List UInt8} (what : String) (order : ByteOrder)
    (h₀ : 0 ≤ dec.pos) (h : dec.rest = bs ++ r) {w : Nat} (hw : bs.length = w) (hpos : 0 < w) :
    readFixed what w order dec = .ok (order.uint w bs) (dec.setPos (dec.pos + w)) := by
  have hin := inBounds_of_rest h₀ h (by
    intro hc; rw [List.append_eq_nil] at hc; rw [hc.1, List.length_nil] at hw; omega)
  have hlen := remaining_eq_length_rest hin
  rw [h, List.length_append, hw] at hlen
  rw [readFixed, if_neg (by push_cast at hlen; omega), if_neg (by omega), drop_pos_eq_rest, h,
    order.uint_append (le_of_eq hw.symm)]

theorem readFixed_short {dec : Decoder} (what : String) (order : ByteOrder) {w : Nat}
    (hin : dec.InBounds) (hw : dec.rest.length < w) :
    readFixed what w order dec = .err (.required what w dec.rest.length) dec := by
  have hlen := remaining_eq_length_rest hin
  rw [readFixed, hlen, if_pos (by exact_mod_cast hw)]

theorem readBytes_append {dec : Decoder} {r : List UInt8} (h₀ : 0 ≤ dec.pos) :
    ∀ bs : List UInt8, dec.rest = bs ++ r →
      readBytes bs.length dec = .ok bs (dec.setPos (dec.pos + bs.length))
  | [], _ => by simp [readBytes, setPos]
  | b :: bs, h => by
    have h1 := readByte_cons (r := bs ++ r) h₀ (by rw [h]; rfl)
    have h2 : (dec.setPos (dec.pos + 1)).rest = bs ++ r :=
      rest_setPos h₀ (show dec.rest = [b] ++ (bs ++ r) from h)
    have ih := @readBytes_append (dec.setPos (dec.pos + 1)) r (by simp; omega) bs h2
    simp only [readBytes, List.length_cons, DecM.bind_apply, h1, Outcome.bind_ok, ih,
      DecM.pure_apply]
    simp only [setPos, Nat.cast_succ]
    congr 2; ring

theorem readBytes_short {dec : Decoder} (hin : dec.InBounds) :
    ∀ n, dec.rest.length < n →
      readBytes n dec = .err (.required "" 1 0) (dec.setPos dec.data.length)
  | 0, h => absurd h (Nat.not_lt_zero _)
  | n + 1, h => by
    cases hr : dec.rest with
    | nil =>
      have hp : dec.pos = dec.data.length := by
        have := length_rest hin; rw [hr] at this; simp at this; omega
      simp only [readBytes, DecM.bind_apply, readByte_nil hin hr, Outcome.bind_err]
      rw [← hp]; rfl
    | cons b r =>
      have h1 := readByte_cons hin.1 hr
      have h2 : (dec.setPos (dec.pos + 1)).rest = r :=
        rest_setPos hin.1 (show dec.rest = [b] ++ r from hr)
      have hin2 := inBounds_setPos hin (show dec.rest = [b] ++ r from hr)
      have ih := @readBytes_short (dec.setPos (dec.pos + 1)) (by simpa using hin2) n
        (by rw [h2]; rw [hr] at h; simpa using h)
      simp only [readBytes, DecM.bind_apply, h1, Outcome.bind_ok, Nat.cast_ofNat] at ih ⊢
      rw [ih]; rfl

theorem readNBytes_append {dec : Decoder} {bs r : List UInt8} (h₀ : 0 ≤ dec.pos)
    (h : dec.rest = bs ++ r) (hb : bs.length ≤ maxAlloc) :
    readNBytes bs.length dec = .ok bs (dec.setPos (dec.pos + bs.length)) := by
  rw [readNBytes_of_le (by omega) (by exact_mod_cast hb), Int.toNat_natCast,
    readBytes_append h₀ bs h]

theorem readUint64_append {dec : Decoder} {bs r : List UInt8} (order : ByteOrder)
    (h₀ : 0 ≤ dec.pos) (h : dec.rest = bs ++ r) (hw : bs.length = 8) :
    readUint64 order dec = .ok (order.uint 8 bs) (dec.setPos (dec.pos + 8)) := by
  have hin := inBounds_of_rest h₀ h (by
    intro hc; rw [List.append_eq_nil] at hc; rw [hc.1, List.length_nil] at hw; omega)
  have hlen := remaining_eq_length_rest hin
  rw [h, List.length_append, hw] at hlen
  have hn := readNBytes_append h₀ h (by rw [hw]; decide)
  rw [hw, Nat.cast_ofNat] at hn
  rw [readUint64, if_neg (by push_cast at hlen; omega)]
  simp only [DecM.bind_apply, hn, Outcome.bind_ok, DecM.pure_apply]

theorem readUint64_short {dec : Decoder} (order : ByteOrder) (hin : dec.InBounds)
    (hw : dec.rest.length < 8) :
    readUint64 order dec = .err (.required "decode: uint64" 8 dec.rest.length) dec := by
  have hlen := remaining_eq_length_rest hin
  rw [readUint64, hlen, if_pos (by exact_mod_cast hw)]

theorem readFloat32_append {dec : Decoder} {bs r : List UInt8} (order : ByteOrder)
    (h₀ : 0 ≤ dec.pos) (h : dec.rest = bs ++ r) (hw : bs.length = 4)
    (hbin : dec.encoding = .bin) :
    readFloat32 order dec = .ok (order.uint 4 bs) (dec.setPos (dec.pos + 4)) := by
  have hin := inBounds_of_rest h₀ h (by
    intro hc; rw [List.append_eq_nil] at hc; rw [hc.1, List.length_nil] at hw; omega)
  have hlen := remaining_eq_length_rest hin
  rw [h, List.length_append, hw] at hlen
  rw [readFloat32, if_neg (by push_cast at hlen; omega), if_neg (by omega)]
  simp only [hbin, reduceCtorEq, false_and, if_false, drop_pos_eq_rest, h,
    order.uint_append (le_of_eq hw.symm)]

theorem readFloat64_append {dec : Decoder} {bs r : List UInt8} (order : ByteOrder)
    (h₀ : 0 ≤ dec.pos) (h : dec.rest = bs ++ r) (hw : bs.length = 8)
    (hbin : dec.encoding = .bin) :
    readFloat64 order dec = .ok (order.uint 8 bs) (dec.setPos (dec.pos + 8)) := by
  have hin := inBounds_of_rest h₀ h (by
    intro hc; rw [List.append_eq_nil] at hc; rw [hc.1, List.length_nil] at hw; omega)
  have hlen := remaining_eq_length_rest hin
  rw [h, List.length_append, hw] at hlen
  rw [readFloat64, if_neg (by push_cast at hlen; omega), if_neg (by omega)]
  simp only [hbin, reduceCtorEq, false_and, if_false, drop_pos_eq_rest, h,
    order.uint_append (le_of_eq hw.symm)]

theorem readBool_cons {dec : Decoder} {b : UInt8} {r : List UInt8} (h₀ : 0 ≤ dec.pos)
    (h : dec.rest = b :: r) : readBool dec = .ok (b ≠ 0) (dec.setPos (dec.pos + 1)) := by
  have hin := inBounds_of_rest h₀ h (List.cons_ne_nil b r)
  have hlen := remaining_eq_length_rest hin
  rw [h, List.length_cons] at hlen
  rw [readBool, if_neg (by omega), readByte_cons h₀ h]

/-! ## Varints and length prefixes -/

theorem unread_of_inBounds {dec : Decoder} (hin : dec.InBounds) : unread dec = .ok dec.rest dec :=
  if_pos hin

/-- `ReadUvarint64` is `binary.Uvarint` on the unread bytes. -/
theorem readUvarint64_eq {dec : Decoder} (hin : dec.InBounds) :
    readUvarint64 dec =
      if (uvarint dec.rest).2 ≤ 0 then .err .varIntBufferSize dec
      else .ok (uvarint dec.rest).1 (dec.setPos (dec.pos + (uvarint dec.rest).2)) := by
  simp only [readUvarint64, DecM.bind_apply, unread_of_inBounds hin, Outcome.bind_ok]

theorem readUvarint64_putUvarint {dec : Decoder} {x : Nat} {r : List UInt8} (hin : dec.InBounds)
    (hx : x < 2 ^ 64) (h : dec.rest = putUvarint x ++ r) :
    readUvarint64 dec = .ok x (dec.setPos (dec.pos + (putUvarint x).length)) := by
  have hpos := length_appendUvarint_pos 9 x
  rw [readUvarint64_eq hin, h, uvarint_putUvarint_append hx, if_neg (by unfold putUvarint; omega)]

section Length

variable (cu16 : CompactU16)

theorem readLength_bin {dec : Decoder} (hbin : dec.encoding = .bin) :
    readLength cu16 dec = (do let val ← readUvarint64; pure (toInt val)) dec := by
  rw [readLength, hbin]

/-- `ReadByteSlice` once its length is read: the payload when it is there. -/
theorem readByteSlice_of_readLength {dec d : Decoder} {L : Int} {bs r : List UInt8}
    (hL : readLength cu16 dec = .ok L d) (hin : d.InBounds) (h : d.rest = bs ++ r)
    (hlen : (bs.length : Int) = L) :
    readByteSlice cu16 dec = .ok bs (d.setPos (d.pos + L)) := by
  have hl := length_rest hin
  rw [h, List.length_append] at hl
  have hlt := d.data_lt_int
  unfold InBounds at hin
  have hwrap : wrapInt (d.pos + L) = d.pos + L := wrapInt_of_mem (by omega) (by push_cast at hl; omega)
  simp only [readByteSlice, DecM.bind_apply, hL, Outcome.bind_ok, hwrap]
  rw [if_neg (by push_cast at hl; omega)]
  simp only [DecM.bind_apply, sliceData]
  rw [if_pos ⟨hin.1, by omega, by push_cast at hl; omega⟩]
  simp only [Outcome.bind_ok, drop_pos_eq_rest, h,
    show (d.pos + L - d.pos).toNat = bs.length by omega, List.take_left]

theorem readString_putUvarint {dec : Decoder} {bs r : List UInt8} (hbin : dec.encoding = .bin)
    (hin : dec.InBounds) (hbs : bs.length < 2 ^ 63) (h : dec.rest = putUvarint bs.length ++ bs ++ r) :
    readString cu16 dec =
      .ok bs (dec.setPos (dec.pos + (putUvarint bs.length).length + bs.length)) := by
  have hu := readUvarint64_putUvarint (x := bs.length) hin (by omega) (by rw [h, List.append_assoc])
  have hL : readLength cu16 dec = .ok (bs.length : Int)
      (dec.setPos (dec.pos + (putUvarint bs.length).length)) := by
    simp only [readLength_bin cu16 hbin, DecM.bind_apply, hu, Outcome.bind_ok, DecM.pure_apply,
      toInt_of_lt hbs]
  have h' : dec.rest = putUvarint bs.length ++ (bs ++ r) := by rw [h, List.append_assoc]
  rw [readString, readByteSlice_of_readLength cu16 hL (inBounds_setPos hin h')
    (rest_setPos hin.1 h') rfl]
  rfl

end Length

/-! ## Every read only moves the cursor forward -/

section Advance

/-- The one step of a read that checks the buffer first: stay with an error, or move
past the `w` bytes the check found. -/
theorem Advances.checked {α : Type} {m : DecM α} (w : Nat)
    (h : ∀ dec, dec.InBounds → ∀ d ∈ (m dec).dec?,
      d = dec ∨ (¬ dec.remaining < w ∧ d = dec.setPos (dec.pos + w))) : Advances m := by
  intro dec hin d hd
  rcases h dec hin d hd with rfl | ⟨hw, rfl⟩
  · exact Advances.stay d
  · exact Advances.move hin hw

/-- Read off an outcome's session. -/
theorem Outcome.mem_dec? {α : Type} {o : Outcome α} {d : Decoder} :
    d ∈ o.dec? ↔ (∃ a, o = .ok a d) ∨ (∃ e, o = .err e d) := by
  cases o <;> simp [Outcome.dec?, eq_comm]

theorem advances_readByte : Advances readByte := by
  refine Advances.checked 1 fun dec _ d hd => ?_
  unfold readByte at hd
  split_ifs at hd with h₁ <;> simp_all [Outcome.dec?]

theorem advances_readBool : Advances readBool := by
  intro dec hin d hd
  unfold readBool at hd
  split_ifs at hd
  · simp only [Outcome.dec?, Option.mem_def, Option.some.injEq] at hd
    exact hd ▸ Advances.stay dec
  · apply advances_readByte dec hin d
    cases h : readByte dec <;> simp_all [Outcome.dec?]

theorem advances_readInt8 : Advances readInt8 :=
  advances_readByte.bind fun _ => Advances.pure _

theorem advances_readFixed (what : String) (w : Nat) (order : ByteOrder) :
    Advances (readFixed what w order) := by
  refine Advances.checked w fun dec _ d hd => ?_
  unfold readFixed at hd
  split_ifs at hd with h₁ <;> simp_all [Outcome.dec?]

theorem advances_readUint16 (order : ByteOrder) : Advances (readUint16 order) :=
  advances_readFixed _ _ _

theorem advances_readUint32 (order : ByteOrder) : Advances (readUint32 order) :=
  advances_readFixed _ _ _

theorem advances_readInt16 (order : ByteOrder) : Advances (readInt16 order) :=
  (advances_readFixed _ _ _).bind fun _ => Advances.pure _

theorem advances_readInt32 (order : ByteOrder) : Advances (readInt32 order) :=
  (advances_readFixed _ _ _).bind fun _ => Advances.pure _

theorem advances_readBytes : ∀ n, Advances (readBytes n)
  | 0 => Advances.pure _
  | n + 1 => advances_readByte.bind fun _ => (advances_readBytes n).bind fun _ => Advances.pure _

theorem advances_readNBytes (n : Int) : Advances (readNBytes n) := by
  intro dec hin d hd
  unfold readNBytes at hd
  split_ifs at hd
  · cases hd
  · exact advances_readBytes _ dec hin d hd

theorem advances_readUint64 (order : ByteOrder) : Advances (readUint64 order) := by
  intro dec hin d hd
  unfold readUint64 at hd
  split_ifs at hd
  · simp only [Outcome.dec?, Option.mem_def, Option.some.injEq] at hd
    exact hd ▸ Advances.stay dec
  · exact ((advances_readNBytes 8).bind fun _ => Advances.pure _) dec hin d hd

theorem advances_readInt64 (order : ByteOrder) : Advances (readInt64 order) :=
  (advances_readUint64 order).bind fun _ => Advances.pure _

theorem advances_readUint128 (order : ByteOrder) : Advances (readUint128 order) := by
  refine Advances.checked 16 fun dec _ d hd => ?_
  unfold readUint128 at hd
  by_cases h₁ : dec.remaining < 16
  · rw [if_pos h₁] at hd; simp_all [Outcome.dec?]
  · rw [if_neg h₁] at hd
    simp only [DecM.bind_apply, sliceData] at hd
    split_ifs at hd <;> simp_all [Outcome.dec?]

theorem advances_readFloat128 (order : ByteOrder) : Advances (readFloat128 order) := by
  intro dec hin d hd
  apply advances_readUint128 order dec hin d
  unfold readFloat128 at hd
  cases h : readUint128 order dec <;> simp_all [Outcome.dec?]

theorem advances_readFloat32 (order : ByteOrder) : Advances (readFloat32 order) := by
  refine Advances.checked 4 fun dec _ d hd => ?_
  unfold readFloat32 at hd
  simp only [Option.mem_def, apply_ite Outcome.dec?, Outcome.dec?] at hd
  split_ifs at hd <;> simp_all

theorem advances_readFloat64 (order : ByteOrder) : Advances (readFloat64 order) := by
  refine Advances.checked 8 fun dec _ d hd => ?_
  unfold readFloat64 at hd
  simp only [Option.mem_def, apply_ite Outcome.dec?, Outcome.dec?] at hd
  split_ifs at hd <;> simp_all

/-- A varint read: stay with an error, or move past the `n` bytes the varint took. -/
theorem Advances.varint {α : Type} {m : DecM α} (f : List UInt8 → α × Int)
    (hf : ∀ bs, (f bs).2 ≤ bs.length)
    (hm : ∀ dec, dec.InBounds → m dec = if (f dec.rest).2 ≤ 0 then .err .varIntBufferSize dec
      else .ok (f dec.rest).1 (dec.setPos (dec.pos + (f dec.rest).2))) : Advances m := by
  intro dec hin d hd
  have := hf dec.rest
  rw [hm dec hin] at hd
  split_ifs at hd with h
  · simp only [Outcome.dec?, Option.mem_def, Option.some.injEq] at hd
    exact hd ▸ Advances.stay dec
  · simp only [Outcome.dec?, Option.mem_def, Option.some.injEq] at hd
    exact hd ▸ ⟨(f dec.rest).2.toNat, by omega, by congr 2; omega⟩

theorem advances_readUvarint64 : Advances readUvarint64 :=
  Advances.varint uvarint uvarint_le_length fun _ hin => readUvarint64_eq hin

theorem advances_readVarint64 : Advances readVarint64 :=
  Advances.varint varint (fun bs => uvarint_le_length bs) fun dec hin => by
    simp only [readVarint64, DecM.bind_apply, unread_of_inBounds hin, Outcome.bind_ok]

variable (cu16 : CompactU16)

theorem advances_readCompactU16 : Advances (readCompactU16 cu16) := by
  intro dec hin d hd
  simp only [readCompactU16, DecM.bind_apply, unread_of_inBounds hin, Outcome.bind_ok] at hd
  have hl := length_rest hin
  split at hd <;> simp only [Outcome.dec?, Option.mem_def, Option.some.injEq] at hd <;> subst hd
  · rename_i l k hk
    exact ⟨k, (cu16.consumed _ l k hk).2, rfl⟩
  · exact ⟨dec.rest.length, le_rfl, by congr 1; omega⟩

theorem advances_readLength : Advances (readLength cu16) := by
  intro dec hin d hd
  unfold readLength at hd
  split at hd
  · exact (advances_readUvarint64.map _) dec hin d hd
  · exact ((advances_readFixed _ 4 LE).map _) dec hin d hd
  · exact ((advances_readCompactU16 cu16).map _) dec hin d hd

theorem advances_readByteSlice : Advances (readByteSlice cu16) := by
  refine (advances_readLength cu16).bind fun length dec hin d hd => ?_
  have hl := length_rest hin
  simp only at hd
  split_ifs at hd with h
  · simp only [Outcome.dec?, Option.mem_def, Option.some.injEq] at hd
    exact hd ▸ Advances.stay dec
  · simp only [DecM.bind_apply, sliceData] at hd
    split_ifs at hd with h'
    · simp only [Outcome.bind_ok, Outcome.dec?, Option.mem_def, Option.some.injEq] at hd
      exact hd ▸ ⟨(wrapInt (dec.pos + length) - dec.pos).toNat, by omega, by congr 1; omega⟩
    · cases hd

theorem advances_readString : Advances (readString cu16) := advances_readByteSlice cu16

theorem advances_safeReadUTF8String : Advances (safeReadUTF8String cu16) :=
  (advances_readByteSlice cu16).map _

theorem advances_readRustString : Advances readRustString :=
  (advances_readUint64 _).bind fun _ => advances_readNBytes _

theorem advances_readTypeID : Advances readTypeID := advances_readNBytes 8

theorem advances_peek (n : Int) : Advances (peek n) := by
  intro dec _ d hd
  unfold peek sliceData at hd
  split_ifs at hd <;> simp only [Outcome.dec?, Option.mem_def, Option.some.injEq] at hd <;>
    first | exact hd ▸ Advances.stay dec | cases hd

theorem advances_skipBytes (count : Nat) : Advances (skipBytes count) := by
  intro dec hin d hd
  have hr := remaining_eq_length_rest hin
  have hlt := dec.data_lt_int
  have hl := length_rest hin
  have h₀ := hin.1
  unfold skipBytes at hd
  split_ifs at hd with h <;> simp only [Outcome.dec?, Option.mem_def, Option.some.injEq] at hd <;>
    subst hd
  · exact Advances.stay dec
  · have hu : (toUint dec.remaining : Int) = dec.remaining := toUint_of_nonneg (by omega) (by omega)
    have hc : (count : Int) ≤ dec.rest.length := by omega
    refine ⟨count, by omega, ?_⟩
    rw [toInt_of_lt (by omega), wrapInt_of_mem (by omega) (by omega)]

end Advance

end BinDecoder
