import BinDecoder.Decoder

/-!
# `SafeReadUTF8String` returns well-formed UTF-8

`SafeReadUTF8String` is `ReadByteSlice` followed by `strings.Map(fixUtf, ...)`, which
`mapFixUtf` models: a byte that starts no well-formed UTF-8 sequence becomes `U+FFFD`, and
a well-formed sequence is kept, as `utf8Width` (the model's `utf8.DecodeRuneInString`)
finds it.

Well-formed UTF-8 is stated here on its own, as a grammar of byte sequences
(`Utf8Char`, `Utf8Octets`): one to four bytes, with no overlong form, no surrogate and no
code point above `U+10FFFF`.  `utf8Width` accepts exactly the characters of the grammar
(`utf8Char_of_utf8Width`, `utf8Width_of_utf8Char`), so `mapFixUtf` returns well-formed
UTF-8 and leaves well-formed UTF-8 as it is.
-/

namespace BinDecoder

/-! ## Well-formed UTF-8 -/

/-- A continuation byte, `%x80-BF`. -/
def Utf8Tail (b : UInt8) : Prop := 0x80 ≤ b.toNat ∧ b.toNat ≤ 0xBF

/-- One character of well-formed UTF-8: the nine alternatives of the byte table, by the
range of the first byte. -/
inductive Utf8Char : List UInt8 → Prop where
  /-- `%x00-7F` -/
  | one {a : UInt8} : a.toNat ≤ 0x7F → Utf8Char [a]
  /-- `%xC2-DF tail` -/
  | two {a b : UInt8} : 0xC2 ≤ a.toNat → a.toNat ≤ 0xDF → Utf8Tail b → Utf8Char [a, b]
  /-- `%xE0 %xA0-BF tail`: no overlong form. -/
  | e0 {a b c : UInt8} : a.toNat = 0xE0 → 0xA0 ≤ b.toNat → b.toNat ≤ 0xBF → Utf8Tail c →
      Utf8Char [a, b, c]
  /-- `%xE1-EC tail tail` -/
  | e1ec {a b c : UInt8} : 0xE1 ≤ a.toNat → a.toNat ≤ 0xEC → Utf8Tail b → Utf8Tail c →
      Utf8Char [a, b, c]
  /-- `%xED %x80-9F tail`: no surrogate. -/
  | ed {a b c : UInt8} : a.toNat = 0xED → 0x80 ≤ b.toNat → b.toNat ≤ 0x9F → Utf8Tail c →
      Utf8Char [a, b, c]
  /-- `%xEE-EF tail tail` -/
  | eeef {a b c : UInt8} : 0xEE ≤ a.toNat → a.toNat ≤ 0xEF → Utf8Tail b → Utf8Tail c →
      Utf8Char [a, b, c]
  /-- `%xF0 %x90-BF tail tail`: no overlong form. -/
  | f0 {a b c d : UInt8} : a.toNat = 0xF0 → 0x90 ≤ b.toNat → b.toNat ≤ 0xBF → Utf8Tail c →
      Utf8Tail d → Utf8Char [a, b, c, d]
  /-- `%xF1-F3 tail tail tail` -/
  | f1f3 {a b c d : UInt8} : 0xF1 ≤ a.toNat → a.toNat ≤ 0xF3 → Utf8Tail b → Utf8Tail c →
      Utf8Tail d → Utf8Char [a, b, c, d]
  /-- `%xF4 %x80-8F tail tail`: nothing above `U+10FFFF`. -/
  | f4 {a b c d : UInt8} : a.toNat = 0xF4 → 0x80 ≤ b.toNat → b.toNat ≤ 0x8F → Utf8Tail c →
      Utf8Tail d → Utf8Char [a, b, c, d]

/-- Well-formed UTF-8: characters one after another. -/
inductive Utf8Octets : List UInt8 → Prop where
  | nil : Utf8Octets []
  | cons {c rest : List UInt8} : Utf8Char c → Utf8Octets rest → Utf8Octets (c ++ rest)

/-- `U+FFFD`, the replacement character, is a character. -/
theorem utf8Char_replacement : Utf8Char [0xEF, 0xBF, 0xBD] :=
  .eeef (by decide) (by decide) ⟨by decide, by decide⟩ ⟨by decide, by decide⟩

/-! ## `utf8Width` reads one character of the grammar -/

theorem cond_of_ite_eq_succ {C : Prop} [Decidable C] {K k : Nat}
    (h : (if C then K else 0) = k + 1) : C ∧ K = k + 1 := by
  by_cases hC : C
  · rw [if_pos hC] at h; exact ⟨hC, h⟩
  · rw [if_neg hC] at h; cases h

/-- A byte `utf8Width` checks is there, in its range. -/
theorem byte_of_cont {o : Option UInt8} {lo hi : Nat}
    (h : (match o with
      | some b => decide (lo ≤ b.toNat) && decide (b.toNat ≤ hi)
      | none => false) = true) : ∃ c, o = some c ∧ lo ≤ c.toNat ∧ c.toNat ≤ hi := by
  cases o <;> simp_all

theorem take_succ_of_getElem? {bs : List UInt8} {n : Nat} {c : UInt8} (h : bs[n]? = some c) :
    bs.take (n + 1) = bs.take n ++ [c] := by
  rw [List.take_succ, h]; rfl

/-- The bytes `utf8Width` accepts at the front of `b :: bs` form one character. -/
theorem utf8Char_of_utf8Width {b : UInt8} {bs : List UInt8} {k : Nat}
    (h : utf8Width b bs = k + 1) : Utf8Char (b :: bs.take k) := by
  simp only [utf8Width, Bool.and_eq_true] at h
  by_cases h1 : b.toNat < 0x80
  · rw [if_pos h1] at h
    obtain rfl : k = 0 := by omega
    exact .one (by omega)
  rw [if_neg h1] at h
  by_cases h2 : 0xC2 ≤ b.toNat ∧ b.toNat ≤ 0xDF
  · rw [if_pos h2] at h
    obtain ⟨hc, hk⟩ := cond_of_ite_eq_succ h
    obtain rfl : k = 1 := by omega
    obtain ⟨c0, h0, hc0⟩ := byte_of_cont hc
    rw [take_succ_of_getElem? h0]
    exact .two h2.1 h2.2 hc0
  rw [if_neg h2] at h
  by_cases h3 : b.toNat = 0xE0
  · rw [if_pos h3] at h
    obtain ⟨⟨hc, hc'⟩, hk⟩ := cond_of_ite_eq_succ h
    obtain rfl : k = 2 := by omega
    obtain ⟨c0, h0, hc0⟩ := byte_of_cont hc
    obtain ⟨c1, h1, hc1⟩ := byte_of_cont hc'
    rw [take_succ_of_getElem? h1, take_succ_of_getElem? h0]
    exact .e0 h3 hc0.1 hc0.2 hc1
  rw [if_neg h3] at h
  by_cases h4 : b.toNat = 0xED
  · rw [if_pos h4] at h
    obtain ⟨⟨hc, hc'⟩, hk⟩ := cond_of_ite_eq_succ h
    obtain rfl : k = 2 := by omega
    obtain ⟨c0, h0, hc0⟩ := byte_of_cont hc
    obtain ⟨c1, h1, hc1⟩ := byte_of_cont hc'
    rw [take_succ_of_getElem? h1, take_succ_of_getElem? h0]
    exact .ed h4 hc0.1 hc0.2 hc1
  rw [if_neg h4] at h
  by_cases h5 : 0xE1 ≤ b.toNat ∧ b.toNat ≤ 0xEF
  · rw [if_pos h5] at h
    obtain ⟨⟨hc, hc'⟩, hk⟩ := cond_of_ite_eq_succ h
    obtain rfl : k = 2 := by omega
    obtain ⟨c0, h0, hc0⟩ := byte_of_cont hc
    obtain ⟨c1, h1, hc1⟩ := byte_of_cont hc'
    rw [take_succ_of_getElem? h1, take_succ_of_getElem? h0]
    by_cases hb : b.toNat ≤ 0xEC
    · exact .e1ec h5.1 hb hc0 hc1
    · exact .eeef (by omega) h5.2 hc0 hc1
  rw [if_neg h5] at h
  by_cases h6 : b.toNat = 0xF0
  · rw [if_pos h6] at h
    obtain ⟨⟨⟨hc, hc'⟩, hc''⟩, hk⟩ := cond_of_ite_eq_succ h
    obtain rfl : k = 3 := by omega
    obtain ⟨c0, h0, hc0⟩ := byte_of_cont hc
    obtain ⟨c1, h1, hc1⟩ := byte_of_cont hc'
    obtain ⟨c2, h2, hc2⟩ := byte_of_cont hc''
    rw [take_succ_of_getElem? h2, take_succ_of_getElem? h1, take_succ_of_getElem? h0]
    exact .f0 h6 hc0.1 hc0.2 hc1 hc2
  rw [if_neg h6] at h
  by_cases h7 : b.toNat = 0xF4
  · rw [if_pos h7] at h
    obtain ⟨⟨⟨hc, hc'⟩, hc''⟩, hk⟩ := cond_of_ite_eq_succ h
    obtain rfl : k = 3 := by omega
    obtain ⟨c0, h0, hc0⟩ := byte_of_cont hc
    obtain ⟨c1, h1, hc1⟩ := byte_of_cont hc'
    obtain ⟨c2, h2, hc2⟩ := byte_of_cont hc''
    rw [take_succ_of_getElem? h2, take_succ_of_getElem? h1, take_succ_of_getElem? h0]
    exact .f4 h7 hc0.1 hc0.2 hc1 hc2
  rw [if_neg h7] at h
  by_cases h8 : 0xF1 ≤ b.toNat ∧ b.toNat ≤ 0xF3
  · rw [if_pos h8] at h
    obtain ⟨⟨⟨hc, hc'⟩, hc''⟩, hk⟩ := cond_of_ite_eq_succ h
    obtain rfl : k = 3 := by omega
    obtain ⟨c0, h0, hc0⟩ := byte_of_cont hc
    obtain ⟨c1, h1, hc1⟩ := byte_of_cont hc'
    obtain ⟨c2, h2, hc2⟩ := byte_of_cont hc''
    rw [take_succ_of_getElem? h2, take_succ_of_getElem? h1, take_succ_of_getElem? h0]
    exact .f1f3 h8.1 h8.2 hc0 hc1 hc2
  rw [if_neg h8] at h
  cases h

/-- On a character of the grammar, `utf8Width` gives its length, whatever follows it. -/
theorem utf8Width_of_utf8Char {a : UInt8} {t : List UInt8} (hc : Utf8Char (a :: t))
    (rest : List UInt8) : utf8Width a (t ++ rest) = t.length + 1 := by
  cases hc <;> (try simp only [Utf8Tail] at *) <;>
    simp (disch := omega) only [utf8Width, List.cons_append, List.nil_append,
      List.getElem?_cons_zero, List.getElem?_cons_succ, Bool.and_eq_true, decide_eq_true_eq,
      ↓if_pos, ↓if_neg, and_self, List.length_cons, List.length_nil]

/-! ## `mapFixUtf` -/

theorem mapFixUtf_cons_of_zero {b : UInt8} {bs : List UInt8} (h : utf8Width b bs = 0) :
    mapFixUtf (b :: bs) = [0xEF, 0xBF, 0xBD] ++ mapFixUtf bs := by
  rw [mapFixUtf]; split <;> simp_all

theorem mapFixUtf_cons_of_succ {b : UInt8} {bs : List UInt8} {k : Nat}
    (h : utf8Width b bs = k + 1) : mapFixUtf (b :: bs) = (b :: bs.take k) ++ mapFixUtf (bs.drop k) := by
  rw [mapFixUtf]; split <;> simp_all

/-- `strings.Map(fixUtf, s)` is well-formed UTF-8. -/
theorem utf8Octets_mapFixUtf (bs : List UInt8) : Utf8Octets (mapFixUtf bs) := by
  induction bs using mapFixUtf.induct with
  | case1 => rw [mapFixUtf]; exact .nil
  | case2 b bs hw ih => rw [mapFixUtf_cons_of_zero hw]; exact .cons utf8Char_replacement ih
  | case3 b bs k hw ih => rw [mapFixUtf_cons_of_succ hw]; exact .cons (utf8Char_of_utf8Width hw) ih

/-- `strings.Map(fixUtf, s)` leaves well-formed UTF-8 as it is. -/
theorem mapFixUtf_of_utf8Octets {bs : List UInt8} (h : Utf8Octets bs) : mapFixUtf bs = bs := by
  induction h with
  | nil => rw [mapFixUtf]
  | @cons c rest hc _ ih =>
    obtain ⟨a, t, rfl⟩ : ∃ a t, c = a :: t := by cases hc <;> exact ⟨_, _, rfl⟩
    rw [List.cons_append, mapFixUtf_cons_of_succ (utf8Width_of_utf8Char hc rest),
      List.take_left' rfl, List.drop_left' rfl, ih]
    rfl

example : mapFixUtf [0xC3, 0x28] = [0xEF, 0xBF, 0xBD, 0x28] := by
  rw [mapFixUtf_cons_of_zero (by decide), mapFixUtf_cons_of_succ (k := 0) (by decide),
    List.drop_zero, mapFixUtf]
  rfl

/-! ## `SafeReadUTF8String` -/

/-- `SafeReadUTF8String` reads what `ReadString` reads, to the same position, and returns it
repaired: always well-formed UTF-8, and the bytes themselves exactly when they are
well-formed. -/
theorem safeReadUTF8String_utf8 (cu16 : CompactU16) {dec d : Decoder} {bs : List UInt8}
    (h : readString cu16 dec = .ok bs d) :
    safeReadUTF8String cu16 dec = .ok (mapFixUtf bs) d ∧ Utf8Octets (mapFixUtf bs) ∧
      (mapFixUtf bs = bs ↔ Utf8Octets bs) := by
  refine ⟨?_, utf8Octets_mapFixUtf bs,
    fun he => he ▸ utf8Octets_mapFixUtf bs, mapFixUtf_of_utf8Octets⟩
  show (readByteSlice cu16 dec).bind _ = _
  rw [show readByteSlice cu16 dec = .ok bs d from h]
  rfl

/-- The string `C3 28`, a lead byte with no continuation byte after it. -/
theorem safeReadUTF8String_repairs :
    readString .rejecting (newBinDecoder [0x02, 0xC3, 0x28] (by decide)) =
        .ok [0xC3, 0x28] ((newBinDecoder [0x02, 0xC3, 0x28] (by decide)).setPos 3) ∧
      safeReadUTF8String .rejecting (newBinDecoder [0x02, 0xC3, 0x28] (by decide)) =
        .ok (mapFixUtf [0xC3, 0x28]) ((newBinDecoder [0x02, 0xC3, 0x28] (by decide)).setPos 3) ∧
      Utf8Octets (mapFixUtf [0xC3, 0x28]) ∧
      (mapFixUtf [0xC3, 0x28] = [0xC3, 0x28] ↔ Utf8Octets [0xC3, 0x28]) :=
  have h : readString .rejecting (newBinDecoder [0x02, 0xC3, 0x28] (by decide)) =
      .ok [0xC3, 0x28] ((newBinDecoder [0x02, 0xC3, 0x28] (by decide)).setPos 3) := rfl
  ⟨h, safeReadUTF8String_utf8 .rejecting h⟩

end BinDecoder
