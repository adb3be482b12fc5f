import Mathlib.Algebra.CharP.Defs
import Mathlib.Data.Int.Star
import Mathlib.Data.Nat.Bitwise
import Mathlib.Data.Nat.Lattice
import Mathlib.Data.String.Basic
import Mathlib.Tactic.Linarith
import Mathlib.Tactic.NormNum.Ineq
import Mathlib.Tactic.Ring.RingNF

/-!
# Wire primitives of the `bin` package

The byte-level vocabulary `decoder.go` reads with, taken from Go's standard
library: the two byte orders of `encoding/binary` (`binary.LittleEndian.Uint16`
and friends), the LEB128 varints of `binary.Uvarint` and `binary.Varint`,
Go's 64-bit `int` (the conversion `int(x)` of a `uint64`, and wrapping
addition), and the IEEE bit patterns behind `math.Float32frombits` and
`math.IsNaN`.

Next to each reader sits the writer that the reference encoding uses
(`ByteOrder.putUint`, `putUvarint`) and the lemma that the reader inverts it.
`uvarint_append` says that a terminated varint does not look past its last byte.
-/

namespace BinDecoder

/-! ## Go's 64-bit `int` -/

/-- Go's `int(x)` for a `uint64` value `x` on a 64-bit platform: the two's
complement reading, negative from `2^63` on. -/
def toInt (x : Nat) : Int := if x < 2 ^ 63 then x else x - 2 ^ 64

/-- The wrap-around of Go's 64-bit `int` arithmetic. -/
def wrapInt (x : Int) : Int := (x + 2 ^ 63) % 2 ^ 64 - 2 ^ 63

/-- Go's `uint(x)` for an `int` value `x`. -/
def toUint (x : Int) : Nat := (x % 2 ^ 64).toNat

theorem toInt_of_lt {x : Nat} (h : x < 2 ^ 63) : toInt x = x := if_pos h

theorem toInt_neg {x : Nat} (h : 2 ^ 63 ≤ x) (h' : x < 2 ^ 64) : toInt x < 0 := by
  rw [toInt, if_neg (by omega)]; omega

theorem wrapInt_of_mem {x : Int} (h₁ : -2 ^ 63 ≤ x) (h₂ : x < 2 ^ 63) : wrapInt x = x := by
  unfold wrapInt; omega

theorem toUint_of_nonneg {x : Int} (h₁ : 0 ≤ x) (h₂ : x < 2 ^ 64) : (toUint x : Int) = x := by
  unfold toUint; omega

/-! ## Byte orders -/

/-- `binary.ByteOrder`, in the two instances the package uses (`LE` and `BE`). -/
inductive ByteOrder where
  | littleEndian
  | bigEndian
deriving DecidableEq, Repr

/-- The package's `LE`. -/
def LE : ByteOrder := .littleEndian

/-- The package's `BE`. -/
def BE : ByteOrder := .bigEndian

/-- The number whose little-endian bytes are `bs`. -/
def leValue : List UInt8 → Nat
  | [] => 0
  | b :: bs => b.toNat + 256 * leValue bs

/-- `order.Uint16`, `order.Uint32`, `order.Uint64`: the `w`-byte unsigned integer at
the front of `b` in byte order `order`.  Every caller hands in at least `w` bytes. -/
def ByteOrder.uint (order : ByteOrder) (w : Nat) (b : List UInt8) : Nat :=
  match order with
  | .littleEndian => leValue (b.take w)
  | .bigEndian => leValue (b.take w).reverse

/-- The `w` little-endian bytes of `n`, reduced mod `256 ^ w`. -/
def leBytes : Nat → Nat → List UInt8
  | 0, _ => []
  | w + 1, n => (n % 256).toUInt8 :: leBytes w (n / 256)

/-- `order.PutUint16`, `order.PutUint32`, `order.PutUint64`: the `w` bytes of `n`
in byte order `order`. -/
def ByteOrder.putUint (order : ByteOrder) (w n : Nat) : List UInt8 :=
  match order with
  | .littleEndian => leBytes w n
  | .bigEndian => (leBytes w n).reverse

@[simp] theorem length_leBytes (w n : Nat) : (leBytes w n).length = w := by
  induction w generalizing n <;> simp [leBytes, *]

@[simp] theorem length_putUint (order : ByteOrder) (w n : Nat) :
    (order.putUint w n).length = w := by
  cases order <;> simp [ByteOrder.putUint]

theorem leValue_leBytes (w n : Nat) : leValue (leBytes w n) = n % 256 ^ w := by
  induction w generalizing n with
  | zero => simp [leBytes, leValue, Nat.mod_one]
  | succ w ih =>
    have hb : (n % 256).toUInt8.toNat = n % 256 := UInt8.toNat_ofNat_of_lt (Nat.mod_lt _ (by omega))
    rw [leBytes, leValue, hb, ih, Nat.pow_succ, Nat.mul_comm (256 ^ w) 256, Nat.mod_mul]

theorem leValue_lt (bs : List UInt8) : leValue bs < 256 ^ bs.length := by
  induction bs with
  | nil => simp [leValue]
  | cons b bs ih =>
    have := b.toNat_lt
    simp only [leValue, List.length_cons, Nat.pow_succ]
    have h256 : UInt8.size = 256 := rfl
    omega

/-- The reader inverts the writer, whatever follows, up to the width. -/
theorem ByteOrder.uint_putUint_append (order : ByteOrder) (w n : Nat) (s : List UInt8) :
    order.uint w (order.putUint w n ++ s) = n % 256 ^ w := by
  have hlen : w ≤ (leBytes w n).length := by simp
  cases order with
  | littleEndian =>
    rw [ByteOrder.uint, ByteOrder.putUint, List.take_append_of_le_length hlen,
      List.take_of_length_le (le_of_eq (length_leBytes w n)), leValue_leBytes]
  | bigEndian =>
    rw [ByteOrder.uint, ByteOrder.putUint, List.take_append_of_le_length (by simp),
      List.take_of_length_le (by simp), List.reverse_reverse, leValue_leBytes]

/-- A fixed-width read looks at its `w` bytes only. -/
theorem ByteOrder.uint_append (order : ByteOrder) {w : Nat} {b : List UInt8} (h : w ≤ b.length)
    (s : List UInt8) : order.uint w (b ++ s) = order.uint w b := by
  cases order <;> simp only [ByteOrder.uint, List.take_append_of_le_length h]

theorem ByteOrder.uint_lt (order : ByteOrder) (w : Nat) (b : List UInt8) :
    order.uint w b < 256 ^ w := by
  have hlen : (b.take w).length ≤ w := List.length_take_le w b
  have hpow : 256 ^ (b.take w).length ≤ 256 ^ w := Nat.pow_le_pow_right (by omega) hlen
  cases order with
  | littleEndian => exact lt_of_lt_of_le (leValue_lt _) hpow
  | bigEndian =>
    have := leValue_lt (b.take w).reverse
    rw [List.length_reverse] at this
    exact lt_of_lt_of_le this hpow

/-! ## LEB128 varints -/

/-- `binary.MaxVarintLen64`. -/
def maxVarintLen64 : Nat := 10

/-- The loop of `binary.Uvarint` at byte index `i`, with accumulator `x` and shift `s`.
The shifts never overflow 64 bits: a byte with payload is shifted by at most 56, and at
index 9 only the values 0 and 1 get through. -/
def uvarintLoop : List UInt8 → Nat → Nat → Nat → Nat × Int
  | [], _, _, _ => (0, 0)
  | b :: buf, i, x, s =>
    if i = maxVarintLen64 then (0, -((i + 1 : Nat) : Int))
    else if b.toNat < 0x80 then
      if i = maxVarintLen64 - 1 ∧ 1 < b.toNat then (0, -((i + 1 : Nat) : Int))
      else (x ||| b.toNat <<< s, ((i + 1 : Nat) : Int))
    else uvarintLoop buf (i + 1) (x ||| (b.toNat &&& 0x7f) <<< s) (s + 7)

/-- `binary.Uvarint(buf)` (Go 1.17 and later): the value and the number of bytes read,
which is `0` when `buf` ends inside the number and negative when it overflows 64 bits. -/
def uvarint (buf : List UInt8) : Nat × Int := uvarintLoop buf 0 0 0

/-- `binary.Varint(buf)`: the zig-zag reading of `binary.Uvarint`; `^x` is `-x - 1`. -/
def varint (buf : List UInt8) : Int × Int :=
  let x : Int := ((uvarint buf).1 >>> 1 : Nat)
  (if (uvarint buf).1 &&& 1 ≠ 0 then -x - 1 else x, (uvarint buf).2)

/-- The zig-zag reading of a `uint64` inside `binary.Varint`. -/
def unzigzag (ux : Nat) : Int :=
  let x : Int := (ux >>> 1 : Nat)
  if ux &&& 1 ≠ 0 then -x - 1 else x

theorem varint_eq (buf : List UInt8) : varint buf = (unzigzag (uvarint buf).1, (uvarint buf).2) :=
  rfl

/-- `binary.AppendUvarint(nil, x)`: seven bits at a time, low group first, every byte
but the last with its continuation bit set.  The loop `for x >= 0x80` runs at most nine
times on a `uint64`; `g` counts the rounds left. -/
def appendUvarint : Nat → Nat → List UInt8
  | 0, x => [x.toUInt8]
  | g + 1, x => if x < 0x80 then [x.toUInt8] else (x % 0x80 + 0x80).toUInt8 :: appendUvarint g (x / 0x80)

/-- The LEB128 bytes of a `uint64`. -/
def putUvarint (x : Nat) : List UInt8 := appendUvarint 9 x

/-- The zig-zag `uint64` of an `int64` in `binary.AppendVarint`: `uint64(x) << 1`,
complemented when `x` is negative. -/
def zigzag (x : Int) : Nat :=
  let ux := toUint x * 2 % 2 ^ 64
  if x < 0 then 2 ^ 64 - 1 - ux else ux

/-- `binary.AppendVarint(nil, x)`: the zig-zag `uint64` of `x` in LEB128. -/
def putVarint (x : Int) : List UInt8 := putUvarint (zigzag x)

theorem or_shiftLeft_eq_add {x s : Nat} (c : Nat) (h : x < 2 ^ s) :
    x ||| c <<< s = x + c * 2 ^ s := by
  rw [Nat.lor_comm, Nat.shiftLeft_eq, Nat.mul_comm, ← Nat.mul_add_lt_is_or h]
  ring

theorem uvarintLoop_appendUvarint (rest : List UInt8) :
    ∀ (g i x y : Nat), i + g = 9 → x < 2 ^ (7 * i) → x + y * 2 ^ (7 * i) < 2 ^ 64 →
      uvarintLoop (appendUvarint g y ++ rest) i x (7 * i) =
        (x + y * 2 ^ (7 * i), ((i + (appendUvarint g y).length : Nat) : Int)) := by
  intro g
  induction g with
  | zero =>
    intro i x y hi hx hy
    obtain rfl : i = 9 := by omega
    have hy1 : y ≤ 1 := by
      by_contra hc
      have : 2 * 2 ^ 63 ≤ y * 2 ^ 63 := Nat.mul_le_mul_right _ (by omega)
      norm_num at hy this; omega
    have hb : y.toUInt8.toNat = y := UInt8.toNat_ofNat_of_lt (by unfold UInt8.size; omega)
    have h10 : ¬ 9 = 10 := by omega
    have h9 : ¬ (9 = 10 - 1 ∧ 1 < y) := by omega
    simp only [appendUvarint, List.singleton_append, uvarintLoop, hb, maxVarintLen64, h10, h9,
      show y < 0x80 by omega, if_false, if_true, or_shiftLeft_eq_add _ hx]
    simp [hy1]
  | succ g ih =>
    intro i x y hi hx hy
    by_cases hsmall : y < 0x80
    · have hb : y.toUInt8.toNat = y := UInt8.toNat_ofNat_of_lt (by unfold UInt8.size; omega)
      have h10 : ¬ i = 10 := by omega
      have h9 : ¬ (i = 10 - 1 ∧ 1 < y) := by omega
      simp only [appendUvarint, if_pos hsmall, List.singleton_append, uvarintLoop, hb, maxVarintLen64,
        h10, h9, hsmall, if_false, if_true, or_shiftLeft_eq_add _ hx]
      simp
    · have hb : ((y % 0x80 + 0x80).toUInt8).toNat = y % 0x80 + 0x80 :=
        UInt8.toNat_ofNat_of_lt (by unfold UInt8.size; omega)
      have hmask : (y % 0x80 + 0x80) &&& 0x7f = y % 0x80 := by
        rw [show (0x7f : Nat) = 2 ^ 7 - 1 from rfl, Nat.and_pow_two_sub_one_eq_mod]; omega
      have hpow : 2 ^ (7 * (i + 1)) = 2 ^ (7 * i) * 128 := by
        rw [show 7 * (i + 1) = 7 * i + 7 by ring, Nat.pow_add]
      have hx' : x + y % 0x80 * 2 ^ (7 * i) < 2 ^ (7 * (i + 1)) := by
        have hm : (y % 0x80 + 1) * 2 ^ (7 * i) ≤ 0x80 * 2 ^ (7 * i) :=
          Nat.mul_le_mul_right _ (Nat.mod_lt y (by omega))
        rw [hpow]; rw [Nat.add_mul, one_mul] at hm; omega
      have hy' : x + y % 0x80 * 2 ^ (7 * i) + y / 0x80 * 2 ^ (7 * (i + 1)) = x + y * 2 ^ (7 * i) := by
        rw [hpow]; conv_rhs => rw [← Nat.div_add_mod y 0x80]
        ring
      have h10 : ¬ i = 10 := by omega
      simp only [appendUvarint, if_neg hsmall, List.cons_append, uvarintLoop, hb, maxVarintLen64,
        h10, show ¬ (y % 0x80 + 0x80 < 0x80) by omega, if_false]
      rw [hmask, or_shiftLeft_eq_add _ hx,
        show 7 * i + 7 = 7 * (i + 1) by ring, ih (i + 1) _ _ (by omega) hx' (by omega), hy']
      simp only [List.length_cons, Nat.add_assoc, Nat.add_comm 1]

/-- `binary.Uvarint` reads back what `binary.AppendUvarint` wrote, whatever follows. -/
theorem uvarint_putUvarint_append {x : Nat} (h : x < 2 ^ 64) (rest : List UInt8) :
    uvarint (putUvarint x ++ rest) = (x, ((putUvarint x).length : Int)) := by
  have := uvarintLoop_appendUvarint rest 9 0 0 x rfl (by norm_num) (by simpa using h)
  simpa [uvarint, putUvarint] using this

theorem length_appendUvarint_pos (g x : Nat) : 0 < (appendUvarint g x).length := by
  cases g <;> simp only [appendUvarint] <;> (try split_ifs) <;> simp

theorem length_appendUvarint_le (g x : Nat) : (appendUvarint g x).length ≤ g + 1 := by
  induction g generalizing x with
  | zero => simp [appendUvarint]
  | succ g ih => simp only [appendUvarint]; split_ifs <;> simp [ih]

/-- A terminated varint does not look past its last byte. -/
theorem uvarintLoop_append (s : List UInt8) :
    ∀ (buf : List UInt8) (i x sh : Nat), 0 < (uvarintLoop buf i x sh).2 →
      uvarintLoop (buf ++ s) i x sh = uvarintLoop buf i x sh
  | [], _, _, _, h => by simp [uvarintLoop] at h
  | b :: buf, i, x, sh, h => by
    simp only [List.cons_append, uvarintLoop] at h ⊢
    split_ifs at h ⊢
    · rfl
    · rfl
    · rfl
    · exact uvarintLoop_append s buf _ _ _ h

theorem zigzag_lt (x : Int) : zigzag x < 2 ^ 64 := by
  unfold zigzag; dsimp only; split <;> omega

/-- The zig-zag reading undoes the zig-zag `uint64` of an `int64`. -/
theorem unzigzag_zigzag {x : Int} (h₁ : -2 ^ 63 ≤ x) (h₂ : x < 2 ^ 63) : unzigzag (zigzag x) = x := by
  unfold unzigzag zigzag toUint
  simp only [Nat.shiftRight_eq_div_pow, Nat.and_one_is_mod, pow_one]
  split <;> split <;> omega

/-- `binary.Varint` reads back what `binary.AppendVarint` wrote, whatever follows. -/
theorem varint_putVarint_append {x : Int} (h₁ : -2 ^ 63 ≤ x) (h₂ : x < 2 ^ 63) (rest : List UInt8) :
    varint (putVarint x ++ rest) = (x, ((putVarint x).length : Int)) := by
  rw [varint_eq, putVarint, uvarint_putUvarint_append (zigzag_lt x), unzigzag_zigzag h₁ h₂]

theorem uvarint_append {buf : List UInt8} (h : 0 < (uvarint buf).2) (s : List UInt8) :
    uvarint (buf ++ s) = uvarint buf :=
  uvarintLoop_append s buf 0 0 0 h

/-- A terminated varint is a prefix of the buffer, as long as the count says, that reads
the same on its own. -/
theorem uvarintLoop_split :
    ∀ (buf : List UInt8) (i x sh : Nat), 0 < (uvarintLoop buf i x sh).2 →
      ∃ pre suf, buf = pre ++ suf ∧ uvarintLoop pre i x sh = uvarintLoop buf i x sh ∧
        (uvarintLoop buf i x sh).2 = ((i + pre.length : Nat) : Int)
  | [], _, _, _, h => by simp [uvarintLoop] at h
  | b :: buf, i, x, sh, h => by
    simp only [uvarintLoop] at h ⊢
    split_ifs at h ⊢
    · dsimp only at h; omega
    · dsimp only at h; omega
    · exact ⟨[b], buf, rfl, by simp only [uvarintLoop]; split_ifs; rfl, rfl⟩
    · obtain ⟨pre, suf, rfl, hpre, hlen⟩ := uvarintLoop_split buf _ _ _ h
      refine ⟨b :: pre, suf, rfl, ?_, by rw [hlen, List.length_cons]; omega⟩
      simp only [uvarintLoop]
      split_ifs
      exact hpre

theorem uvarint_split {buf : List UInt8} (h : 0 < (uvarint buf).2) :
    ∃ pre suf, buf = pre ++ suf ∧ uvarint pre = uvarint buf ∧
      (uvarint buf).2 = (pre.length : Int) := by
  simpa using uvarintLoop_split buf 0 0 0 h

/-- The count of bytes read never exceeds the buffer. -/
theorem uvarintLoop_le_length :
    ∀ (buf : List UInt8) (i x sh : Nat), (uvarintLoop buf i x sh).2 ≤ (i + buf.length : Nat)
  | [], i, _, _ => by simp [uvarintLoop]
  | b :: buf, i, x, sh => by
    simp only [uvarintLoop, List.length_cons]
    split_ifs
    · push_cast; omega
    · push_cast; omega
    · push_cast; omega
    · have := uvarintLoop_le_length buf (i + 1) (x ||| (b.toNat &&& 0x7f) <<< sh) (sh + 7)
      push_cast at this ⊢; omega

theorem uvarint_le_length (buf : List UInt8) : (uvarint buf).2 ≤ buf.length := by
  simpa using uvarintLoop_le_length buf 0 0 0

/-! ## IEEE bit patterns -/

/-- `math.IsNaN(math.Float32frombits(bits))`: exponent all ones, mantissa non-zero. -/
def isNaN32 (bits : Nat) : Bool := bits / 2 ^ 23 % 2 ^ 8 = 255 && bits % 2 ^ 23 ≠ 0

/-- `math.IsNaN(math.Float64frombits(bits))`. -/
def isNaN64 (bits : Nat) : Bool := bits / 2 ^ 52 % 2 ^ 11 = 2047 && bits % 2 ^ 52 ≠ 0

/-- What a `float32` keeps of `x` after `rv.SetFloat(float64(x))`: the conversions to
`float64` and back are exact on numbers, and on a NaN they set the quiet bit (bit 22),
as IEEE 754 prescribes for a signalling NaN. -/
def float32RoundTrip (bits : Nat) : Nat := if isNaN32 bits then bits ||| 2 ^ 22 else bits

end BinDecoder
