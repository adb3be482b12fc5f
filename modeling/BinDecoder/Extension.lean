import BinDecoder.Prefix
import BinDecoder.RoundTrip
import BinDecoder.Safety

/-!
# `binary_extension` fields

`decodeStruct` of `src/unnamed/part_000` treats a field tagged `binary_extension` as
optional at the end of the buffer: when no byte is left it skips the field, which keeps
its zero value.  It also requires these fields to come last, and panics at an ordinary
field that follows one.

* The order is checked field by field, as the loop reaches each field, not before the
  loop starts (`decodeFields_field_error`): a field before the offending one that fails
  to decode ends the decode with its own error, so whether a record with its fields out
  of order panics depends on the buffer.
-/

namespace BinDecoder

open Decoder

section

variable (env : TypeEnv) (cu16 : CompactU16)

/-- The test of `decodeStruct` for a field: exhausted when it is a `binary_extension`
field and no byte is left. -/
theorem exhausted_eq (f : Field GoType) {dec : Decoder} (hin : dec.InBounds) :
    ((if f.tag.binaryExtension then (fun b => decide (b.length = 0)) <$> unread
        else Pure.pure false : DecM Bool)) dec = .ok (f.tag.binaryExtension && dec.rest.isEmpty) dec := by
  cases f.tag.binaryExtension
  · rfl
  · simp only [if_true, DecM.map_apply, unread_of_inBounds hin, Outcome.bind_ok, DecM.pure_apply,
      Bool.true_and]
    cases dec.rest <;> rfl

/-- `decodeStruct` checks the order of the `binary_extension` fields at each field as it
reaches it: a field that passes the check and fails to decode ends the decode with its own
error, whatever the fields after it are, an ordinary field after an extension one
included. -/
theorem decodeFields_field_error {rec : DecodeFn} {f : Field GoType} (fs : List (Field GoType))
    {v : Value} (vs : List Value) {m : String → Option Int} {seen : Bool} {dec d : Decoder}
    {e : DecodeError} (hin : dec.InBounds) (hskip : f.tag.skip = false)
    (hord : (!f.tag.binaryExtension && seen) = false)
    (hlive : f.tag.binaryExtension = true → dec.rest ≠ []) (hexp : f.exported = true)
    (hrec : rec f.type true (some (fieldOption f m)) v dec = .err e d) :
    decodeFields env rec (f :: fs) (v :: vs) m seen dec = .err e d := by
  have hlive' : (f.tag.binaryExtension && dec.rest.isEmpty) = false := by
    cases hx : f.tag.binaryExtension
    · rfl
    · simpa [List.isEmpty_iff] using hlive hx
  simp only [decodeFields, hskip, hord, Bool.false_eq_true, if_false, DecM.bind_apply,
    exhausted_eq f hin, hlive', Outcome.bind_ok, hexp, Bool.not_true, Bool.or_false, hrec,
    Outcome.bind_err]

end

/-- `struct { A uint16 "binary_extension"; B uint8 }`, whose field `B` breaks the order,
on the one byte `5`: the decode fails on `A`, with `A`'s error, and never panics. -/
theorem extension_order_error_first :
    ((newBinDecoder [5] (by decide)).InBounds ∧ false = false ∧ (!true && false) = false ∧
      (true = true → (newBinDecoder [5] (by decide)).rest ≠ []) ∧ true = true ∧
      decodeBin customEnv .rejecting 3 .uint16 true
          (some (fieldOption ⟨"A", true, ⟨"", false, .littleEndian, false, true⟩, .uint16⟩
            fun _ => none)) (.uint 0) (newBinDecoder [5] (by decide)) =
        .err (.required "uint16" 2 1) (newBinDecoder [5] (by decide))) ∧
    decodeStruct customEnv (decodeBin customEnv .rejecting 3)
        [⟨"A", true, ⟨"", false, .littleEndian, false, true⟩, .uint16⟩,
          ⟨"B", true, ⟨"", false, .littleEndian, false, false⟩, .uint8⟩]
        [.uint 0, .uint 0] (newBinDecoder [5] (by decide)) =
      .err (.required "uint16" 2 1) (newBinDecoder [5] (by decide)) :=
  ⟨⟨inBounds_newDecoderWithEncoding _ _ _, rfl, rfl, fun _ => nofun, rfl, rfl⟩,
    decodeFields_field_error customEnv _ _ (inBounds_newDecoderWithEncoding _ _ _) rfl rfl
      (fun _ => nofun) rfl rfl⟩

/-! ## Forward compatibility -/

/-- Modelled from the spec: the field with its `binary_extension` flag cleared, encoded and
checked as an ordinary field. -/
def Field.withoutExtension (f : Field GoType) : Field GoType :=
  { f with tag := { f.tag with binaryExtension := false } }

/-- Modelled from the spec: the fields that are not skipped are ordinary fields followed
by `binary_extension` fields; `seen` says whether one of the latter came before. -/
def extensionsLast (seen : Bool) : List (Field GoType) → Bool
  | [] => true
  | f :: fs =>
    if f.tag.skip then extensionsLast seen fs
    else (f.tag.binaryExtension || !seen) && extensionsLast (seen || f.tag.binaryExtension) fs

theorem extensionsLast_of_append {b : List (Field GoType)} :
    ∀ {a : List (Field GoType)} {seen : Bool},
      extensionsLast seen (a ++ b) = true → extensionsLast seen a = true
  | [], _, _ => rfl
  | f :: a, seen, h => by
    simp only [List.cons_append, extensionsLast] at h ⊢
    split_ifs at h ⊢
    · exact extensionsLast_of_append h
    · simp only [Bool.and_eq_true] at h ⊢
      exact ⟨h.1, extensionsLast_of_append h.2⟩

theorem zeroFields_append (nz : String → Value) (a b : List (Field GoType)) :
    zeroFields nz (a ++ b) = zeroFields nz a ++ zeroFields nz b := by
  simp only [zeroFields_eq_map, List.map_append]

section

variable (env : TypeEnv) (cu16 : CompactU16) (other : OtherDecoders)

/-- Modelled from the spec: at each exported `binary_extension` field that is not skipped,
a byte of the encoding is left. -/
def bytesAtExtensions : List (Field GoType) → List Value → (String → Option Int) → Bool
  | f :: fs, v :: vs, links =>
    (f.tag.skip || !f.exported || !f.tag.binaryExtension ||
        !(encodeFields env (f :: fs) (v :: vs) links).isEmpty) &&
      bytesAtExtensions fs vs (nextLinks f v links)
  | _, _, _ => true

/-- A read that consumes exactly `bs`, followed by the rest of a method. -/
theorem ReadsAs.bind_run {α β : Type} {m : DecM α} {bs : List UInt8} {a : α}
    (hm : ReadsAs m bs a) (f : α → DecM β) {dec : Decoder} {s : List UInt8} (hin : dec.InBounds)
    (hbin : dec.encoding = .bin) (h : dec.rest = bs ++ s) :
    (m >>= f) dec = f a (dec.setPos (dec.pos + bs.length)) := by
  rw [DecM.bind_apply, hm dec s hin hbin h, Outcome.bind_ok]

/-- With no byte left, the fields of an absent tail, each skipped or a `binary_extension`
field, keep the values they have. -/
theorem decodeFields_absent {rec : DecodeFn} :
    ∀ (fs : List (Field GoType)) (vs : List Value) (links : String → Option Int) (seen : Bool),
      fs.all (fun f => f.tag.skip || f.tag.binaryExtension) = true →
      ∀ dec : Decoder, dec.InBounds → dec.rest = [] →
        decodeFields env rec fs vs links seen dec = .ok vs dec
  | [], _, _, _, _, _, _, _ | _ :: _, [], _, _, _, _, _, _ => rfl
  | f :: fs, v :: vs, links, seen, hall, dec, hin, h => by
    simp only [List.all_cons, Bool.and_eq_true, Bool.or_eq_true] at hall
    have ih := @decodeFields_absent rec fs vs links
    rw [decodeFields]
    by_cases hskip : f.tag.skip = true
    · simp only [hskip, if_true, DecM.map_apply, ih seen hall.2 dec hin h, Outcome.bind_ok,
        DecM.pure_apply]
    · have hext : f.tag.binaryExtension = true := hall.1.resolve_left hskip
      rw [if_neg hskip, if_neg (by simp [hext]), DecM.bind_apply, exhausted_eq f hin]
      simp only [h, hext, List.isEmpty_nil, Bool.and_self,
        Bool.true_or, if_true, DecM.map_apply, ih _ hall.2 dec hin h, Outcome.bind_ok,
        DecM.pure_apply]

theorem encodableFields_withoutExtension_cons (f : Field GoType) (fs : List (Field GoType))
    (v : Value) (vs : List Value) (links : String → Option Int) :
    encodableFields env ((f :: fs).map Field.withoutExtension) (v :: vs) links =
      ((f.tag.skip || !f.exported ||
          presenceOk env (fieldDirective f links) f.type v
              (encodableBody env (fieldDirective f links) f.type v) &&
            (f.tag.sizeOf = "" || sizeFieldOk env f.type v)) &&
        encodableFields env (fs.map Field.withoutExtension) vs (nextLinks f v links)) := by
  rw [List.map_cons, encodableFields_cons]
  rfl

/-- The fields of a record up to its last present one, followed by an absent tail of
extension fields, on a buffer that holds exactly the encodings of the present fields:
each present field is read back, the tail keeps its values, and the whole buffer is
consumed. -/
theorem decodeFields_present {rec : DecodeFn} {fs₂ : List (Field GoType)} {vs₂ : List Value}
    (habsent : fs₂.all (fun f => f.tag.skip || f.tag.binaryExtension) = true) :
    ∀ (fs₁ : List (Field GoType)) (vs₁ : List Value) (m links : String → Option Int)
      (seen : Bool), LinksAgree m links → (∀ v ∈ vs₁, RoundTrips env rec v) →
      encodableFields env (fs₁.map Field.withoutExtension) vs₁ links = true →
      bytesAtExtensions env fs₁ vs₁ links = true → extensionsLast seen fs₁ = true →
      ∀ dec : Decoder, dec.InBounds → dec.encoding = .bin →
        dec.rest = encodeFields env fs₁ vs₁ links →
        decodeFields env rec (fs₁ ++ fs₂) (zeroFields env.namedZero fs₁ ++ vs₂) m seen dec =
          .ok (canonFields env fs₁ vs₁ ++ vs₂) (dec.setPos dec.data.length)
  | [], [], m, _, seen, _, _, _, _, _, dec, hin, _, h => by
    have h' : dec.rest = [] := by rwa [encodeFields_nil] at h
    have hpos : dec.pos = dec.data.length := by have := length_rest hin; rw [h'] at this; simp at this; omega
    rw [List.nil_append, zeroFields, List.nil_append,
      decodeFields_absent env fs₂ vs₂ m seen habsent dec hin h', ← hpos, Decoder.setPos_self]
    simp [canonFields_nil]
  | [], _ :: _, _, _, _, _, _, h, _, _, _, _, _, _
  | _ :: _, [], _, _, _, _, _, h, _, _, _, _, _, _ => by
    simp [encodableFields_nil_cons, encodableFields_cons_nil] at h
  | f :: fs, v :: vs, m, links, seen, hml, hrt, henc, hbytes, hord, dec, hin, hbin, h => by
    have ih := @decodeFields_present rec fs₂ vs₂ habsent fs vs
    have hrt' : ∀ w ∈ vs, RoundTrips env rec w := fun w hw => hrt w (List.mem_cons_of_mem v hw)
    rw [encodableFields_withoutExtension_cons, Bool.and_eq_true] at henc
    simp only [bytesAtExtensions, Bool.and_eq_true] at hbytes
    rw [List.cons_append, zeroFields, List.cons_append, decodeFields]
    by_cases hskip : f.tag.skip = true
    · -- a skipped field: no byte, and the zero value
      have hn : nextLinks f v links = links := by simp [nextLinks, hskip]
      simp only [extensionsLast, hskip, if_true] at hord
      rw [hn] at henc hbytes
      have h' : dec.rest = encodeFields env fs vs links := by
        simpa [encodeFields_cons, hskip, hn] using h
      rw [if_pos hskip, DecM.map_apply, ih m links seen hml hrt' henc.2 hbytes.2 hord dec hin hbin h',
        Outcome.bind_ok, DecM.pure_apply]
      simp [canonFields_cons, hskip, TypeEnv.zero]
    simp only [Bool.not_eq_true] at hskip
    simp only [extensionsLast, hskip, Bool.false_eq_true, if_false, Bool.and_eq_true] at hord
    have hcheck : (!f.tag.binaryExtension && seen) = false := by
      revert hord; cases f.tag.binaryExtension <;> cases seen <;> simp
    rw [if_neg (by simp [hskip]), if_neg (by simp [hcheck]), DecM.bind_apply, exhausted_eq f hin,
      Outcome.bind_ok]
    cases hexp : f.exported
    · -- an unexported field: no byte, and the zero value
      have hn : nextLinks f v links = links := by simp [nextLinks, hexp]
      rw [hn] at henc hbytes
      have h' : dec.rest = encodeFields env fs vs links := by
        simpa [encodeFields_cons, hexp, hn] using h
      rw [if_pos (by simp), DecM.map_apply, ih m links _ hml hrt' henc.2 hbytes.2 hord.2 dec hin hbin h',
        Outcome.bind_ok, DecM.pure_apply]
      simp [canonFields_cons, hexp, TypeEnv.zero]
    · -- an exported field: a byte is left, and the field is read back
      have hlive : (f.tag.binaryExtension && dec.rest.isEmpty) = false := by
        have := hbytes.1
        simp only [hskip, hexp, ← h, Bool.false_or, Bool.not_true] at this
        revert this; cases f.tag.binaryExtension <;> simp
      have hf := henc.1
      simp only [hskip, hexp, Bool.not_true, Bool.false_or, Bool.and_eq_true, Bool.or_eq_true,
        decide_eq_true_eq] at hf
      have h₁ : dec.rest = encode env (fieldDirective f links) f.type v ++
          encodeFields env fs vs (nextLinks f v links) := by
        simpa [encodeFields_cons, hskip, hexp, encode] using h
      have hopt := fieldOption_agree env hml f hf.1
      have hread : ReadsAs (rec f.type true (some (fieldOption f m)) (zeroWith env.namedZero f.type))
          (encode env (fieldOption f m) f.type v) (canon env f.type v) :=
        hrt v (List.mem_cons_self v vs) f.type (fieldOption f m) hopt.1
      rw [hopt.2] at hread
      obtain ⟨m', hm', hsize⟩ := readsAs_sizeOfMap env hml ⟨hskip, hexp⟩ hf.2 hf.1
      have hin₁ := inBounds_setPos hin h₁
      have h₂ := rest_setPos hin.1 h₁
      rw [hlive, if_neg (by simp), hread.bind_run _ hin hbin h₁,
        hsize.bind_run _ hin₁ hbin (by rw [h₂]; rfl)]
      simp only [List.length_nil, Nat.cast_zero, add_zero, Decoder.setPos_self]
      rw [DecM.map_apply, ih m' _ _ hm' hrt' henc.2 hbytes.2 hord.2 _ hin₁ hbin h₂, Outcome.bind_ok,
        DecM.pure_apply]
      simp [canonFields_cons, hskip, hexp]

/-- Forward compatibility of Bin-mode `Decode` for a record whose `binary_extension` fields
come last.  On a buffer that holds exactly the encodings of its ordinary fields and of
its first extension fields, decoding into a pointer to a zero record reads them back
(`canon`), leaves the extension fields after them zero, and consumes the whole buffer,
provided a byte is left at each present exported extension field. -/
theorem decode_extensions_forward (t : GoType) (fs₁ fs₂ : List (Field GoType))
    (hu : env.underlying t = .struct (fs₁ ++ fs₂)) (hm : env.methodOf (.ptr t) = none)
    (hord : extensionsLast false (fs₁ ++ fs₂) = true)
    (habsent : fs₂.all (fun f => f.tag.skip || f.tag.binaryExtension) = true) (vs₁ : List Value)
    (hx : encodableFields env (fs₁.map Field.withoutExtension) vs₁ (fun _ => none) = true)
    (hbytes : bytesAtExtensions env fs₁ vs₁ (fun _ => none) = true) (n : Nat)
    (hn : (Value.struct vs₁).depth + 3 ≤ n) (dec : Decoder) (hin : dec.InBounds)
    (hbin : dec.encoding = .bin) (h : dec.rest = encodeFields env fs₁ vs₁ (fun _ => none)) :
    decode env cu16 other n (some (.ptr t, .ptr (some (env.zero t)))) dec =
      .ok (.ptr (some (.struct (canonFields env fs₁ vs₁ ++ zeroFields env.namedZero fs₂))))
        (dec.setPos dec.data.length) := by
  obtain ⟨k, rfl⟩ : ∃ k, n = k + 3 := ⟨n - 3, by omega⟩
  simp only [Value.depth] at hn
  have hk : env.kind t = .struct := by simp [TypeEnv.kind, hu, GoType.kind]
  have hrt : ∀ x ∈ vs₁, RoundTrips env (decodeBin env cu16 (k + 2)) x :=
    roundTrips_of_mem env cu16 (fun x _ => loopRoundTrip env cu16 x) (by omega)
  rw [decode_ptr_plain env cu16 other (by rw [hk]; decide) (by rw [hk]; decide) hm _ _ hbin]
  simp only [decodeKind, hu, DecM.map_apply, decodeStruct, env.zero_eq_of_underlying hu]
  rw [show (env.zero (.struct (fs₁ ++ fs₂))).fields =
      zeroFields env.namedZero fs₁ ++ zeroFields env.namedZero fs₂ from zeroFields_append _ _ _,
    decodeFields_present env habsent fs₁ vs₁ _ _ false (linksAgree_refl _) hrt hx hbytes
      (extensionsLast_of_append hord)
      dec hin hbin h]
  rfl

end

/-- `struct { A uint8; E uint8 "binary_extension"; F uint8 "binary_extension" }` on the
bytes `7, 9`, the encodings of `A = 7` and `E = 9`: `F` stays zero. -/
theorem decode_extensions_forward_a_e :
    (customEnv.methodOf (.ptr (.struct ([⟨"A", true, ⟨"", false, .littleEndian, false, false⟩, .uint8⟩, ⟨"E", true, ⟨"", false, .littleEndian, false, true⟩, .uint8⟩] ++ [⟨"F", true, ⟨"", false, .littleEndian, false, true⟩, .uint8⟩])))
        = none ∧
      extensionsLast false ([⟨"A", true, ⟨"", false, .littleEndian, false, false⟩, .uint8⟩, ⟨"E", true, ⟨"", false, .littleEndian, false, true⟩, .uint8⟩] ++ [⟨"F", true, ⟨"", false, .littleEndian, false, true⟩, .uint8⟩]) = true ∧
      encodableFields customEnv ([⟨"A", true, ⟨"", false, .littleEndian, false, false⟩, .uint8⟩, ⟨"E", true, ⟨"", false, .littleEndian, false, true⟩, .uint8⟩].map Field.withoutExtension) [.uint 7, .uint 9]
        (fun _ => none) = true ∧
      bytesAtExtensions customEnv [⟨"A", true, ⟨"", false, .littleEndian, false, false⟩, .uint8⟩, ⟨"E", true, ⟨"", false, .littleEndian, false, true⟩, .uint8⟩] [.uint 7, .uint 9] (fun _ => none) = true ∧
      (newBinDecoder [7, 9] (by decide)).rest =
        encodeFields customEnv [⟨"A", true, ⟨"", false, .littleEndian, false, false⟩, .uint8⟩, ⟨"E", true, ⟨"", false, .littleEndian, false, true⟩, .uint8⟩] [.uint 7, .uint 9] (fun _ => none)) ∧
    decode customEnv .rejecting .failing 4
        (some (.ptr (.struct ([⟨"A", true, ⟨"", false, .littleEndian, false, false⟩, .uint8⟩, ⟨"E", true, ⟨"", false, .littleEndian, false, true⟩, .uint8⟩] ++ [⟨"F", true, ⟨"", false, .littleEndian, false, true⟩, .uint8⟩])),
          .ptr (some (customEnv.zero (.struct ([⟨"A", true, ⟨"", false, .littleEndian, false, false⟩, .uint8⟩, ⟨"E", true, ⟨"", false, .littleEndian, false, true⟩, .uint8⟩] ++ [⟨"F", true, ⟨"", false, .littleEndian, false, true⟩, .uint8⟩]))))))
        (newBinDecoder [7, 9] (by decide)) =
      .ok (.ptr (some (.struct [.uint 7, .uint 9, .uint 0])))
        ((newBinDecoder [7, 9] (by decide)).setPos 2) :=
  ⟨⟨rfl, rfl, rfl, rfl, rfl⟩,
    (decode_extensions_forward customEnv .rejecting .failing _ _ _ (by rfl) (by rfl) (by rfl) (by rfl)
      [.uint 7, .uint 9] (by rfl) (by rfl) 4 (by decide) _ (inBounds_newDecoderWithEncoding _ _ _)
      (by rfl) (by rfl)).trans (by rfl)⟩

/-- Two limits of forward compatibility.  `struct { L uint8 "sizeof=E"; E []struct{}
"binary_extension" }` with `L = 2` and `E = [{}, {}]`: `E` encodes to no byte, so `[2]`
holds the encodings of both fields, yet `E` is skipped and comes back empty.  And
`struct { A []paddedRecord; E uint8 "binary_extension" }` with two elements in `A`, whose
encoding is `[2]`, panics in `reflect.MakeSlice`. -/
theorem decode_extensions_limits :
    encodableFields customEnv ([⟨"L", true, ⟨"E", false, .littleEndian, false, false⟩, .uint8⟩, ⟨"E", true, ⟨"", false, .littleEndian, false, true⟩, .slice (.struct [])⟩].map Field.withoutExtension)
        [.uint 2, .slice [.struct [], .struct []]] (fun _ => none) = true ∧
    encodeFields customEnv [⟨"L", true, ⟨"E", false, .littleEndian, false, false⟩, .uint8⟩, ⟨"E", true, ⟨"", false, .littleEndian, false, true⟩, .slice (.struct [])⟩] [.uint 2, .slice [.struct [], .struct []]]
        (fun _ => none) = [2] ∧
    decode customEnv .rejecting .failing 4
        (some (.ptr (.struct [⟨"L", true, ⟨"E", false, .littleEndian, false, false⟩, .uint8⟩, ⟨"E", true, ⟨"", false, .littleEndian, false, true⟩, .slice (.struct [])⟩]),
          .ptr (some (customEnv.zero (.struct [⟨"L", true, ⟨"E", false, .littleEndian, false, false⟩, .uint8⟩, ⟨"E", true, ⟨"", false, .littleEndian, false, true⟩, .slice (.struct [])⟩])))))
        (newBinDecoder [2] (by decide)) =
      .ok (.ptr (some (.struct [.uint 2, .slice []]))) ((newBinDecoder [2] (by decide)).setPos 1) ∧
    encodeFields customEnv [⟨"A", true, ⟨"", false, .littleEndian, false, false⟩, .slice paddedRecord⟩]
        [.slice [.struct [.array (List.replicate (2 ^ 48) (.uint 0))],
          .struct [.array (List.replicate (2 ^ 48) (.uint 0))]]] (fun _ => none) = [2] ∧
    decode customEnv .rejecting .failing 4
        (some (.ptr (.struct [⟨"A", true, ⟨"", false, .littleEndian, false, false⟩, .slice paddedRecord⟩, ⟨"E", true, ⟨"", false, .littleEndian, false, true⟩, .uint8⟩]),
          .ptr (some (customEnv.zero (.struct [⟨"A", true, ⟨"", false, .littleEndian, false, false⟩, .slice paddedRecord⟩, ⟨"E", true, ⟨"", false, .littleEndian, false, true⟩, .uint8⟩])))))
        (newBinDecoder [2] (by decide)) = .panic .allocationSizeOutOfRange :=
  ⟨rfl, rfl, rfl, rfl, rfl⟩

end BinDecoder
