import BinDecoder.Safety

/-!
# Recursive types

`decodeBin` recurses once per element of an array or slice and once per field of a
struct, so a recursive type such as `type Node struct { Kids []Node }` is decoded by a
recursion as deep as the value the buffer describes.  Each round of that cycle reads the
count of `Kids`, so the buffer runs out before the recursion can go on for ever; but the
count is converted with `int(length)`, and a count of `2^63` or more panics in
`reflect.MakeSlice` before any element is decoded (`decode_recursive_count_wraps`).

A slice's elements are decoded under the slice's own directive (`decodeBin(rv.Index(i),
opt)`), and a directive that carries a `sizeof=` size hands that size to every slice
below it that is reached without passing through a struct.  Under such a directive
`type S []S` reads no count at all: with a size of at least one it recurses for ever and
reads nothing (`decodeBin_sized_self_slice`), and `Decode` of a struct whose `sizeof=`
field names a field of type `S` never returns (`decode_sizeof_self_slice`).
-/

namespace BinDecoder

open Decoder

section

variable (env : TypeEnv) (cu16 : CompactU16) (other : OtherDecoders)

/-- `Decode(&node)` for `type Node struct { Kids []Node }` on a buffer whose first uvarint,
the count of `Kids`, is `2^63` or more: `int(length)` is negative and
`reflect.MakeSlice` panics. -/
theorem decode_recursive_count_wraps {N : String} {order : ByteOrder}
    (hN : env.decl N =
      ⟨.struct [⟨"Kids", true, ⟨"", false, order, false, false⟩, .slice (.named N)⟩], none⟩)
    (k : Value) (n : Nat) (dec : Decoder) (hin : dec.InBounds) (hbin : dec.encoding = .bin)
    {x : Nat} (hx : 2 ^ 63 ≤ x) (hx' : x < 2 ^ 64) (s : List UInt8)
    (h : dec.rest = putUvarint x ++ s) :
    decode env cu16 other (n + 4) (some (.ptr (.named N), .ptr (some (.struct [k])))) dec =
      .panic .reflectMakeSliceNegativeLen := by
  rw [decode_ptr_plain env cu16 other (t := .named N) (by simp [TypeEnv.kind, hN, GoType.kind])
    (by simp [TypeEnv.kind, hN, GoType.kind]) (by simp [TypeEnv.methodOf, hN]) _ _ hbin]
  simp only [decodeKind, TypeEnv.underlying_named, hN, decodeStruct, Value.fields,
    decodeFields, Bool.false_eq_true, if_false, Bool.not_false, Bool.and_false, DecM.bind_apply,
    DecM.map_apply, DecM.pure_apply, Outcome.bind_ok, Bool.or_false, Bool.not_true,
    Nat.add_assoc, Nat.reduceAdd]
  rw [decodeBin_plain env cu16 (t := .slice (.named N)) (by simp [TypeEnv.kind, GoType.kind])
    (by simp [TypeEnv.kind, GoType.kind]) rfl rfl]
  simp only [decodeKind, TypeEnv.underlying, fieldOption, DecM.bind_apply, DecM.map_apply,
    readUvarint64_putUvarint hin hx' h, Outcome.bind_ok, DecM.pure_apply, makeSlice,
    if_pos (toInt_neg hx hx'), DecM.panic_apply, Outcome.bind_panic]

/-- A call whose `indirect` runs out of rounds runs out of fuel. -/
theorem decodeBin_of_indirect_none {n : Nat} {t : GoType} {s : Bool} {o : Option FieldOption}
    {x : Value} (h : indirect env n (.loc t [] s) (o.getD newDefaultOption).optionalField x = none)
    (dec : Decoder) : decodeBin env cu16 (n + 1) t s o x dec = .outOfFuel := by
  simp only [decodeBin, h]
  rfl

section SelfSlice

variable {env} {S : String} (hS : env.decl S = ⟨.slice (.named S), none⟩) {o : FieldOption}
  (ho : o.optionalField = false) {l : Int} (hl : o.sizeOfSlice = some l) (hl1 : 0 < l)
  (hmax : 24 * l ≤ maxAlloc)
include hS ho hl hl1 hmax

/-- `type S []S` under a directive that carries a size `l ≥ 1`: `l` elements of `S`, each
decoded under the same directive, so the recursion never ends; whatever the fuel, the
value and the buffer, the call runs out of fuel.  A value of `S`, a slice header, takes
24 bytes, so `hmax` keeps `reflect.MakeSlice` from refusing the `l` elements. -/
theorem decodeBin_sized_self_slice :
    ∀ n x dec, decodeBin env cu16 n (.named S) true (some o) x dec = .outOfFuel
  | 0, _, _ => rfl
  | 1, x, dec => decodeBin_of_indirect_none env cu16 (by simp only [indirect]; split_ifs <;> rfl) dec
  | 2, x, dec => decodeBin_of_indirect_none env cu16
      (by
        rw [Option.getD_some, ho, indirect, if_pos ⟨by simp [TypeEnv.kind, hS, GoType.kind], rfl, rfl⟩,
          indirectLoop_addr env (by simp [TypeEnv.methodOf, hS])]
        rfl) dec
  | n + 3, x, dec => by
    obtain ⟨m, hm⟩ : ∃ m, l.toNat = m + 1 := ⟨l.toNat - 1, by omega⟩
    rw [decodeBin_plain env cu16 (by simp [TypeEnv.kind, hS, GoType.kind])
      (by simp [TypeEnv.kind, hS, GoType.kind]) (by simp [TypeEnv.methodOf, hS]) ho]
    have hsize : l.toNat = 1 ∨ env.size (.named S) * l.toNat ≤ maxAlloc :=
      .inr (by rw [env.size_named, hS]; show 24 * l.toNat ≤ maxAlloc; omega)
    simp only [decodeKind, TypeEnv.underlying_named, hS, hl, DecM.bind_apply, DecM.pure_apply,
      Outcome.bind_ok, makeSlice_of_nonneg env hl1.le hsize, DecM.map_apply, hm,
      List.replicate_succ, decodeElems, decodeBin_sized_self_slice (n + 2), Outcome.bind_outOfFuel]

end SelfSlice

/-- `Decode(&w)` for `type W struct { N uint8 "sizeof=Kids"; Kids S }` with `type S []S`, on
a buffer whose first byte is not `0`: `N` is read, and its value becomes the size of
every slice below `Kids`, which never returns. -/
theorem decode_sizeof_self_slice {S W nN nK : String} {oN oK : ByteOrder} (hK : nK ≠ "")
    (hS : env.decl S = ⟨.slice (.named S), none⟩)
    (hW : env.decl W = ⟨.struct [⟨nN, true, ⟨nK, false, oN, false, false⟩, .uint8⟩,
      ⟨nK, true, ⟨"", false, oK, false, false⟩, .named S⟩], none⟩)
    (vN vK : Value) (n : Nat) (dec : Decoder) (hin : dec.InBounds) (hbin : dec.encoding = .bin)
    {b : UInt8} {r : List UInt8} (h : dec.rest = b :: r) (hb : b ≠ 0) :
    decode env cu16 other (n + 4) (some (.ptr (.named W), .ptr (some (.struct [vN, vK])))) dec =
      .outOfFuel := by
  have hlt := b.toNat_lt_size
  have hb' : (0 : Int) < toInt b.toNat := by
    have : b.toNat ≠ 0 := fun h0 => hb (UInt8.toNat.inj h0)
    rw [toInt, if_pos (by simp only [UInt8.size] at *; omega)]; omega
  have hmax : 24 * toInt b.toNat ≤ maxAlloc := by
    rw [toInt, if_pos (by simp only [UInt8.size] at *; omega)]
    simp only [UInt8.size, maxAlloc] at *; omega
  rw [decode_ptr_plain env cu16 other (t := .named W) (by simp [TypeEnv.kind, hW, GoType.kind])
    (by simp [TypeEnv.kind, hW, GoType.kind]) (by simp [TypeEnv.methodOf, hW]) _ _ hbin]
  simp only [decodeKind, TypeEnv.underlying_named, hW, decodeStruct, Value.fields,
    decodeFields, Bool.false_eq_true, if_false, Bool.not_false, Bool.and_false, DecM.bind_apply,
    DecM.map_apply, DecM.pure_apply, Outcome.bind_ok, Bool.or_false, Bool.not_true,
    Nat.add_assoc, Nat.reduceAdd]
  rw [decodeBin_plain env cu16 (t := .uint8) nofun nofun rfl rfl]
  have hsize : sizeof env .uint8 (.uint b.toNat) =
      pure (if toInt b.toNat < 0 then 0 else toInt b.toNat) := rfl
  simp only [decodeKind, TypeEnv.underlying, DecM.map_apply, readByte_cons hin.1 h,
    Outcome.bind_ok, DecM.pure_apply, hsize, DecM.bind_apply, ne_eq,
    hK, not_false_eq_true, if_true, if_neg (not_lt.2 hb'.le), Bool.false_eq_true, if_false]
  rw [decodeBin_sized_self_slice cu16 hS rfl (l := toInt b.toNat)
    (by simp [fieldOption, Function.update_same]) hb' hmax]
  rfl

end

/-- `type Node struct { Kids []Node }`, and `type S []S` with
`type W struct { N uint8 "sizeof=Kids"; Kids S }`; no type has a custom decoder. -/
def recursiveEnv : TypeEnv where
  decl n :=
    if n = "Node" then
      ⟨.struct [⟨"Kids", true, ⟨"", false, .littleEndian, false, false⟩, .slice (.named "Node")⟩],
        none⟩
    else if n = "S" then ⟨.slice (.named "S"), none⟩
    else if n = "W" then
      ⟨.struct [⟨"N", true, ⟨"Kids", false, .littleEndian, false, false⟩, .uint8⟩,
        ⟨"Kids", true, ⟨"", false, .littleEndian, false, false⟩, .named "S"⟩], none⟩
    else ⟨.bool, none⟩
  namedZero n :=
    if n = "Node" then .struct [.slice []]
    else if n = "S" then .slice []
    else if n = "W" then .struct [.uint 0, .slice []]
    else .bool false
  namedLayout n := if n = "W" then (32, 8) else if n = "Node" ∨ n = "S" then (24, 8) else (1, 1)
  underlying_ne_named n m := by dsimp only; split_ifs <;> simp
  namedZero_eq n := by
    dsimp only
    by_cases h1 : n = "Node"
    · subst h1; rfl
    by_cases h2 : n = "S"
    · subst h2; rfl
    by_cases h3 : n = "W"
    · subst h3; rfl
    simp only [h1, h2, h3, if_false]; rfl
  namedLayout_eq n := by
    dsimp only
    by_cases h1 : n = "Node"
    · subst h1; rfl
    by_cases h2 : n = "S"
    · subst h2; rfl
    by_cases h3 : n = "W"
    · subst h3; rfl
    simp only [h1, h2, h3, if_false, or_self]; rfl
  no_methods n h := by dsimp only at h; split_ifs at h <;> simp at h

/-- `Decode(&node)` on the ten bytes of the uvarint `2^64 - 1`. -/
theorem decode_recursive_count_wraps_max :
    (recursiveEnv.decl "Node" =
        ⟨.struct [⟨"Kids", true, ⟨"", false, .littleEndian, false, false⟩,
          .slice (.named "Node")⟩], none⟩ ∧
      (newBinDecoder (putUvarint (2 ^ 64 - 1)) (by decide)).InBounds ∧
      (newBinDecoder (putUvarint (2 ^ 64 - 1)) (by decide)).encoding = .bin ∧
      2 ^ 63 ≤ 2 ^ 64 - 1 ∧ 2 ^ 64 - 1 < 2 ^ 64 ∧
      (newBinDecoder (putUvarint (2 ^ 64 - 1)) (by decide)).rest =
        putUvarint (2 ^ 64 - 1) ++ []) ∧
    decode recursiveEnv .rejecting .failing 4
        (some (.ptr (.named "Node"), .ptr (some (.struct [.slice []]))))
        (newBinDecoder (putUvarint (2 ^ 64 - 1)) (by decide)) =
      .panic .reflectMakeSliceNegativeLen :=
  ⟨⟨rfl, inBounds_newDecoderWithEncoding _ _ _, rfl, by norm_num, by norm_num,
      by simp [rest, newBinDecoder, newDecoderWithEncoding]⟩,
    decode_recursive_count_wraps recursiveEnv .rejecting .failing (N := "Node") rfl (.slice []) 0 _
      (inBounds_newDecoderWithEncoding _ _ _) rfl (x := 2 ^ 64 - 1) (by norm_num) (by norm_num) []
      (by simp [rest, newBinDecoder, newDecoderWithEncoding])⟩

/-- `Decode(&w)` on the single byte `1`, with a hundred levels of fuel. -/
theorem decode_sizeof_self_slice_one :
    ("Kids" ≠ "" ∧ recursiveEnv.decl "S" = ⟨.slice (.named "S"), none⟩ ∧
      recursiveEnv.decl "W" =
        ⟨.struct [⟨"N", true, ⟨"Kids", false, .littleEndian, false, false⟩, .uint8⟩,
          ⟨"Kids", true, ⟨"", false, .littleEndian, false, false⟩, .named "S"⟩], none⟩ ∧
      (newBinDecoder [1] (by decide)).InBounds ∧ (newBinDecoder [1] (by decide)).encoding = .bin ∧
      (newBinDecoder [1] (by decide)).rest = [1] ∧
      (1 : UInt8) ≠ 0) ∧
    decode recursiveEnv .rejecting .failing 100
        (some (.ptr (.named "W"), .ptr (some (.struct [.uint 0, .slice []]))))
        (newBinDecoder [1] (by decide)) = .outOfFuel :=
  have hW : recursiveEnv.decl "W" =
      ⟨.struct [⟨"N", true, ⟨"Kids", false, .littleEndian, false, false⟩, .uint8⟩,
        ⟨"Kids", true, ⟨"", false, .littleEndian, false, false⟩, .named "S"⟩], none⟩ := rfl
  ⟨⟨by decide, rfl, hW, inBounds_newDecoderWithEncoding _ _ _, rfl, rfl, by decide⟩,
    decode_sizeof_self_slice recursiveEnv .rejecting .failing (S := "S") (by decide) rfl hW
      (.uint 0) (.slice []) 96 _ (inBounds_newDecoderWithEncoding _ _ _) rfl rfl (by decide)⟩

end BinDecoder
