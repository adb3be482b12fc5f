import BinDecoder.Reads

/-!
# The varint reads undo LEB128

`ReadUvarint64` and `ReadVarint64` of `src/decoder.go` against LEB128 as the
specification describes it (`leb128`): seven bits a byte, low group first, every byte but
the last with its high bit set, the number ended within ten bytes and its value within
64 bits.

`uvarintResult_uvarint` says that Go's `binary.Uvarint` is exactly that reader: the
loop's accumulator is the value of the groups read so far (`uvarintLoop_eq_lebGroups`),
and its two overflow exits are the eleventh byte and a tenth byte above `1`, which are
where the value stops fitting 64 bits.  `varint_reads_leb128` then gives both reads: each
reads back what `binary.AppendUvarint` or `binary.AppendVarint` wrote, wherever it stands,
and fails, leaving the cursor where it was, exactly when the unread bytes do not start
with a LEB128 number.
-/

namespace BinDecoder

open Decoder

/-- Modelled from the spec: the unsigned LEB128 number at the front of `bs` within `g`
bytes, with the number of its bytes; `none` when none of the first `g` bytes ends it. -/
def lebGroups : Nat → List UInt8 → Option (Nat × Nat)
  | 0, _ | _ + 1, [] => none
  | g + 1, b :: bs =>
    if b.toNat < 0x80 then some (b.toNat, 1)
    else (lebGroups g bs).map fun r => (b.toNat % 0x80 + 0x80 * r.1, r.2 + 1)

/-- Modelled from the spec: a LEB128 number that ends within ten bytes and whose value
fits 64 bits. -/
def leb128 (bs : List UInt8) : Option (Nat × Nat) :=
  (lebGroups 10 bs).filter fun r => r.1 < 2 ^ 64

/-- What `binary.Uvarint` returns, as the value and the count of its bytes, or a failure. -/
def uvarintResult (r : Nat × Int) : Option (Nat × Nat) :=
  if 0 < r.2 then some (r.1, r.2.toNat) else none

@[simp] theorem lebGroups_nil (g : Nat) : lebGroups g [] = none := by cases g <;> rfl

/-- No LEB128 number ends within `g` bytes exactly when each of them has its high bit set. -/
theorem lebGroups_eq_none_iff :
    ∀ (g : Nat) (bs : List UInt8), lebGroups g bs = none ↔ ∀ b ∈ bs.take g, 0x80 ≤ b.toNat
  | 0, _ => by simp [lebGroups]
  | _ + 1, [] => by simp
  | g + 1, b :: bs => by
    simp only [lebGroups, List.take_succ_cons, List.mem_cons, forall_eq_or_imp]
    split_ifs with h
    · exact iff_of_false nofun fun hall => absurd hall.1 (by omega)
    · rw [Option.map_eq_none', lebGroups_eq_none_iff g bs]
      exact ⟨fun hall => ⟨by omega, hall⟩, fun hall => hall.2⟩

/-- A read fails when no byte among the first ten ends the number, or when its value does
not fit 64 bits. -/
theorem leb128_eq_none_iff (bs : List UInt8) :
    leb128 bs = none ↔
      (∀ b ∈ bs.take 10, 0x80 ≤ b.toNat) ∨ ∃ v k, lebGroups 10 bs = some (v, k) ∧ 2 ^ 64 ≤ v := by
  rw [← lebGroups_eq_none_iff, leb128]
  rcases lebGroups 10 bs with _ | ⟨v, k⟩ <;> simp [Option.filter]

/-- The loop of `binary.Uvarint` from byte `i` with accumulator `x` adds the value of the
remaining groups at bit `7 * i`, and fails where LEB128 fails or the sum needs more than
64 bits. -/
theorem uvarintLoop_eq_lebGroups :
    ∀ (buf : List UInt8) (i x : Nat), i ≤ 10 → x < 2 ^ (7 * i) →
      uvarintResult (uvarintLoop buf i x (7 * i)) =
        (lebGroups (10 - i) buf).bind fun r =>
          if x + r.1 * 2 ^ (7 * i) < 2 ^ 64 then some (x + r.1 * 2 ^ (7 * i), i + r.2) else none
  | [], _, _, _, _ => by simp [uvarintLoop, uvarintResult]
  | b :: buf, i, x, hi, hx => by
    by_cases h10 : i = 10
    · subst h10; simp [uvarintLoop, uvarintResult, maxVarintLen64, lebGroups]
    obtain ⟨g, hg⟩ : ∃ g, 10 - i = g + 1 := ⟨9 - i, by omega⟩
    have hb := b.toNat_lt
    simp only [uvarintLoop, maxVarintLen64, h10, if_false, hg, lebGroups]
    by_cases hlast : b.toNat < 0x80
    · -- the last byte: a tenth byte above `1` is the only value that does not fit
      have hfit : (i = 10 - 1 ∧ 1 < b.toNat) ↔ ¬ x + b.toNat * 2 ^ (7 * i) < 2 ^ 64 := by
        have : b.toNat * 2 ^ (7 * i) ≤ 127 * 2 ^ (7 * i) := Nat.mul_le_mul_right _ (by omega)
        rcases Nat.lt_or_ge i 9 with h9 | h9
        · have : 2 ^ (7 * i) ≤ 2 ^ 56 := Nat.pow_le_pow_right (by norm_num) (by omega)
          omega
        · obtain rfl : i = 9 := by omega
          norm_num at hx ⊢; omega
      simp only [hlast, if_true, Option.some_bind, or_shiftLeft_eq_add _ hx]
      by_cases ho : i = 10 - 1 ∧ 1 < b.toNat
      · rw [if_pos ho, if_neg (hfit.1 ho), uvarintResult, if_neg (by omega)]
      · rw [if_neg ho, if_pos (not_not.1 (mt hfit.2 ho))]; simp [uvarintResult]
    · -- a byte with its high bit set: seven more bits, and the loop goes on
      have hmask : b.toNat &&& 0x7f = b.toNat % 0x80 := Nat.and_pow_two_sub_one_eq_mod _ 7
      have hpow : 2 ^ (7 * (i + 1)) = 0x80 * 2 ^ (7 * i) := by
        rw [show 7 * (i + 1) = 7 * i + 7 by ring, Nat.pow_add]; ring
      have hx' : x + b.toNat % 0x80 * 2 ^ (7 * i) < 2 ^ (7 * (i + 1)) := by
        have : b.toNat % 0x80 * 2 ^ (7 * i) ≤ 0x7f * 2 ^ (7 * i) :=
          Nat.mul_le_mul_right _ (by omega)
        omega
      simp only [hlast, if_false, hmask, or_shiftLeft_eq_add _ hx,
        show 7 * i + 7 = 7 * (i + 1) by ring,
        uvarintLoop_eq_lebGroups buf (i + 1) _ (by omega) hx', show 10 - (i + 1) = g by omega,
        Option.bind_map]
      refine congrArg _ (funext fun r => ?_)
      have e : x + b.toNat % 0x80 * 2 ^ (7 * i) + r.1 * 2 ^ (7 * (i + 1)) =
          x + (b.toNat % 0x80 + 0x80 * r.1) * 2 ^ (7 * i) := by rw [hpow]; ring
      simp only [Function.comp, e, show i + 1 + r.2 = i + (r.2 + 1) by omega]

/-- `binary.Uvarint` reads LEB128: it succeeds exactly on the buffers that start with a
LEB128 number of at most ten bytes and 64 bits, with its value and length. -/
theorem uvarintResult_uvarint (bs : List UInt8) : uvarintResult (uvarint bs) = leb128 bs := by
  have h := uvarintLoop_eq_lebGroups bs 0 0 (by norm_num) (by norm_num)
  simp only [Nat.mul_zero, pow_zero, mul_one, zero_add] at h
  rw [uvarint, h, leb128]
  rcases lebGroups 10 bs with _ | ⟨v, k⟩ <;> simp [Option.filter]

/-! ## The two reads -/

theorem readVarint64_eq {dec : Decoder} (hin : dec.InBounds) :
    readVarint64 dec =
      if (varint dec.rest).2 ≤ 0 then .err .varIntBufferSize dec
      else .ok (varint dec.rest).1 (dec.setPos (dec.pos + (varint dec.rest).2)) := by
  simp only [readVarint64, DecM.bind_apply, unread_of_inBounds hin, Outcome.bind_ok]

/-- A read that follows `binary.Uvarint` by its value `f v`: the outcome `LEB128` gives. -/
theorem read_eq_leb128 {α : Type} {dec : Decoder} (f : Nat → α) {o : Outcome α}
    (h : o = if (uvarint dec.rest).2 ≤ 0 then .err .varIntBufferSize dec
      else .ok (f (uvarint dec.rest).1) (dec.setPos (dec.pos + (uvarint dec.rest).2))) :
    o = match leb128 dec.rest with
      | some (v, k) => .ok (f v) (dec.setPos (dec.pos + k))
      | none => .err .varIntBufferSize dec := by
  rw [h, ← uvarintResult_uvarint, uvarintResult]
  by_cases hp : 0 < (uvarint dec.rest).2
  · rw [if_neg (by omega), if_pos hp]; simp only [Int.toNat_of_nonneg hp.le]
  · rw [if_pos (by omega), if_neg hp]

/-- A buffer `p ++ bs` read from position `|p|`. -/
theorem rest_of_data {dec : Decoder} {p bs : List UInt8} (h : dec.data = p ++ bs)
    (hp : dec.pos = p.length) : dec.InBounds ∧ dec.rest = bs := by
  refine ⟨⟨by omega, by rw [hp, h, List.length_append]; push_cast; omega⟩, ?_⟩
  rw [rest, h, hp, Int.toNat_natCast, List.drop_left]

/-- `ReadUvarint64` and `ReadVarint64` read back the LEB128 bytes of every `uint64` and
the zig-zag LEB128 bytes of every `int64`, wherever they stand; and each of them fails,
leaving the cursor where it was, exactly when the unread bytes do not start with a
LEB128 number (`leb128_eq_none_iff`). -/
theorem varint_reads_leb128 :
    (∀ n < 2 ^ 64, ∀ (p s : List UInt8) (dec : Decoder), dec.data = p ++ putUvarint n ++ s →
      dec.pos = p.length →
        readUvarint64 dec = .ok n (dec.setPos (p.length + (putUvarint n).length))) ∧
    (∀ m : Int, -2 ^ 63 ≤ m → m < 2 ^ 63 → ∀ (p s : List UInt8) (dec : Decoder),
      dec.data = p ++ putVarint m ++ s → dec.pos = p.length →
        readVarint64 dec = .ok m (dec.setPos (p.length + (putVarint m).length))) ∧
    (∀ dec : Decoder, dec.InBounds →
      readUvarint64 dec = (match leb128 dec.rest with
        | some (v, k) => .ok v (dec.setPos (dec.pos + k))
        | none => .err .varIntBufferSize dec) ∧
      readVarint64 dec = (match leb128 dec.rest with
        | some (v, k) => .ok (unzigzag v) (dec.setPos (dec.pos + k))
        | none => .err .varIntBufferSize dec)) := by
  refine ⟨fun n hn p s dec h hp => ?_, fun m h₁ h₂ p s dec h hp => ?_, fun dec hin =>
    ⟨read_eq_leb128 id (readUvarint64_eq hin), read_eq_leb128 unzigzag (readVarint64_eq hin)⟩⟩
  · obtain ⟨hin, hr⟩ := rest_of_data (h.trans (List.append_assoc _ _ _)) hp
    rw [readUvarint64_putUvarint hin hn hr, hp]
  · obtain ⟨hin, hr⟩ := rest_of_data (h.trans (List.append_assoc _ _ _)) hp
    have hpos := length_appendUvarint_pos 9 (zigzag m)
    rw [readVarint64_eq hin, hr, varint_putVarint_append h₁ h₂, if_neg (by
      simp only [putVarint, putUvarint] at hpos ⊢; omega), hp]

/-- `300` read from byte 1 of `[7, 0xac, 0x02, 9]`. -/
theorem varint_reads_300 :
    (300 : Nat) < 2 ^ 64 ∧
      readUvarint64 ((newBinDecoder [7, 0xac, 0x02, 9] (by decide)).setPos 1) =
        .ok 300 (((newBinDecoder [7, 0xac, 0x02, 9] (by decide)).setPos 1).setPos (1 + 2)) :=
  ⟨by norm_num, varint_reads_leb128.1 300 (by norm_num) [7] [9] _ rfl rfl⟩

end BinDecoder
