import BinDecoder.Calls

/-!
# Reads that consume exactly an encoding

`ReadsAs m bs a`: run in a Bin session whose unread bytes start with `bs`, the method `m`
returns `a` and leaves the cursor just after `bs`, whatever follows.  Round trips of the
decoder are stated in this form.  It composes along `>>=` (`ReadsAs.bind`), and each
primitive read inverts the writer of its wire format: `readByte` a byte, `readFixed`,
`readUint64` and the float reads `ByteOrder.putUint`, `readUvarint64` `putUvarint`, and
`readString` a uvarint length followed by the bytes.
-/

namespace BinDecoder

open Decoder

/-- `m` reads exactly `bs` and returns `a`, whatever follows `bs`. -/
def ReadsAs {α : Type} (m : DecM α) (bs : List UInt8) (a : α) : Prop :=
  ∀ dec s, dec.InBounds → dec.encoding = .bin → dec.rest = bs ++ s →
    m dec = .ok a (dec.setPos (dec.pos + bs.length))

namespace ReadsAs

theorem pure {α : Type} (a : α) : ReadsAs (Pure.pure a : DecM α) [] a := by
  intro dec _ _ _ _
  simp

theorem bind {α β : Type} {m : DecM α} {f : α → DecM β} {b₁ b₂ : List UInt8} {a : α} {c : β}
    (hm : ReadsAs m b₁ a) (hf : ReadsAs (f a) b₂ c) : ReadsAs (m >>= f) (b₁ ++ b₂) c := by
  intro dec s hin hbin h
  have h' : dec.rest = b₁ ++ (b₂ ++ s) := by rw [h, List.append_assoc]
  rw [DecM.bind_apply, hm dec _ hin hbin h', Outcome.bind_ok,
    hf _ s (inBounds_setPos hin h') hbin (rest_setPos hin.1 h')]
  simp only [setPos_setPos, setPos_pos, List.length_append, Nat.cast_add, add_assoc]

theorem bind_pure {α β : Type} {m : DecM α} {bs : List UInt8} {a : α} (f : α → β)
    (hm : ReadsAs m bs a) : ReadsAs (m >>= fun a => Pure.pure (f a)) bs (f a) := by
  simpa using ReadsAs.bind (f := fun a => Pure.pure (f a)) hm (ReadsAs.pure (f a))

theorem map {α β : Type} {m : DecM α} {bs : List UInt8} {a : α} (f : α → β)
    (hm : ReadsAs m bs a) : ReadsAs (f <$> m) bs (f a) :=
  hm.bind_pure f

end ReadsAs

theorem readsAs_readByte (b : UInt8) : ReadsAs readByte [b] b := by
  intro dec _ hin _ h
  simpa using readByte_cons hin.1 h

theorem readsAs_readBool (b : UInt8) : ReadsAs readBool [b] (b ≠ 0) := by
  intro dec _ hin _ h
  simpa using readBool_cons hin.1 h

theorem readsAs_readPresence (rv : RValue) (b : UInt8) : ReadsAs (readPresence rv) [b] b := by
  intro dec s hin hbin h
  unfold readPresence
  rw [readsAs_readByte b dec s hin hbin h]

theorem readsAs_readFixed (what : String) (w : Nat) (hw : 0 < w) (order : ByteOrder) (n : Nat) :
    ReadsAs (readFixed what w order) (order.putUint w n) (n % 256 ^ w) := by
  intro dec _ hin _ h
  rw [readFixed_append what order hin.1 h (length_putUint order w n) hw, length_putUint,
    ← order.uint_putUint_append w n [], List.append_nil]

theorem readsAs_readUint64 (order : ByteOrder) (n : Nat) :
    ReadsAs (readUint64 order) (order.putUint 8 n) (n % 256 ^ 8) := by
  intro dec _ hin _ h
  rw [readUint64_append order hin.1 h (length_putUint order 8 n), length_putUint,
    ← order.uint_putUint_append 8 n [], List.append_nil]
  rfl

theorem readsAs_readFloat32 (order : ByteOrder) (n : Nat) :
    ReadsAs (readFloat32 order) (order.putUint 4 n) (n % 256 ^ 4) := by
  intro dec _ hin hbin h
  rw [readFloat32_append order hin.1 h (length_putUint order 4 n) hbin, length_putUint,
    ← order.uint_putUint_append 4 n [], List.append_nil]
  rfl

theorem readsAs_readFloat64 (order : ByteOrder) (n : Nat) :
    ReadsAs (readFloat64 order) (order.putUint 8 n) (n % 256 ^ 8) := by
  intro dec _ hin hbin h
  rw [readFloat64_append order hin.1 h (length_putUint order 8 n) hbin, length_putUint,
    ← order.uint_putUint_append 8 n [], List.append_nil]
  rfl

theorem readsAs_readUvarint64 {x : Nat} (hx : x < 2 ^ 64) :
    ReadsAs readUvarint64 (putUvarint x) x :=
  fun _ _ hin _ h => readUvarint64_putUvarint hin hx h

theorem readsAs_readString (cu16 : CompactU16) {bs : List UInt8} (hbs : bs.length < 2 ^ 63) :
    ReadsAs (readString cu16) (putUvarint bs.length ++ bs) bs := by
  intro dec _ hin hbin h
  rw [readString_putUvarint cu16 hbin hin hbs h, List.length_append, Nat.cast_add, add_assoc]

/-- A one-byte scalar is the byte of its low eight bits. -/
theorem putUint_one (order : ByteOrder) (n : Nat) :
    order.putUint 1 n = [(n % 256).toUInt8] := by
  cases order <;> rfl

/-! ## The scalar reads of `decodeBin`

Each reads back a value of its type from the bytes of its width: an unsigned value as it
is, a signed one from the low bits of its two's complement (`toUint`). -/

theorem readsAs_readUint8 (order : ByteOrder) {n : Nat} (hn : n < 2 ^ 8) :
    ReadsAs readByte (order.putUint 1 n) n.toUInt8 := by
  rw [putUint_one, Nat.mod_eq_of_lt (by omega)]
  exact readsAs_readByte _

theorem readsAs_readUint16 (order : ByteOrder) {n : Nat} (hn : n < 2 ^ 16) :
    ReadsAs (readUint16 order) (order.putUint 2 n) n := by
  have h := readsAs_readFixed "uint16" 2 (by norm_num) order n
  rwa [Nat.mod_eq_of_lt (by simpa using hn)] at h

theorem readsAs_readUint32 (order : ByteOrder) {n : Nat} (hn : n < 2 ^ 32) :
    ReadsAs (readUint32 order) (order.putUint 4 n) n := by
  have h := readsAs_readFixed "uint32" 4 (by norm_num) order n
  rwa [Nat.mod_eq_of_lt (by simpa using hn)] at h

theorem readsAs_readUint64' (order : ByteOrder) {n : Nat} (hn : n < 2 ^ 64) :
    ReadsAs (readUint64 order) (order.putUint 8 n) n := by
  have h := readsAs_readUint64 order n
  rwa [Nat.mod_eq_of_lt (by simpa using hn)] at h

theorem readsAs_readInt8 (order : ByteOrder) {i : Int} (hi : -2 ^ 7 ≤ i ∧ i < 2 ^ 7) :
    ReadsAs readInt8 (order.putUint 1 (toUint i)) i := by
  have h := (readsAs_readByte (toUint i % 256).toUInt8).bind_pure (fun b => toSigned 8 b.toNat)
  rwa [← putUint_one, show toSigned 8 (toUint i % 256).toUInt8.toNat = i by
    rw [UInt8.toNat_ofNat_of_lt (Nat.mod_lt _ (by norm_num))]
    simp only [toSigned, toUint, UInt8.size]; split <;> omega] at h

theorem readsAs_readInt16 (order : ByteOrder) {i : Int} (hi : -2 ^ 15 ≤ i ∧ i < 2 ^ 15) :
    ReadsAs (readInt16 order) (order.putUint 2 (toUint i)) i := by
  have h := (readsAs_readFixed "uint16" 2 (by norm_num) order (toUint i)).bind_pure (toSigned 16)
  rwa [show toSigned 16 (toUint i % 256 ^ 2) = i by
    simp only [toSigned, toUint, UInt8.size]; split <;> omega] at h

theorem readsAs_readInt32 (order : ByteOrder) {i : Int} (hi : -2 ^ 31 ≤ i ∧ i < 2 ^ 31) :
    ReadsAs (readInt32 order) (order.putUint 4 (toUint i)) i := by
  have h := (readsAs_readFixed "uint32" 4 (by norm_num) order (toUint i)).bind_pure (toSigned 32)
  rwa [show toSigned 32 (toUint i % 256 ^ 4) = i by
    simp only [toSigned, toUint, UInt8.size]; split <;> omega] at h

theorem readsAs_readInt64 (order : ByteOrder) {i : Int} (hi : -2 ^ 63 ≤ i ∧ i < 2 ^ 63) :
    ReadsAs (readInt64 order) (order.putUint 8 (toUint i)) i := by
  have h := (readsAs_readUint64 order (toUint i)).bind_pure (toSigned 64)
  rwa [show toSigned 64 (toUint i % 256 ^ 8) = i by
    simp only [toSigned, toUint, UInt8.size]; split <;> omega] at h

end BinDecoder
