import Tribyte.Text.Utf8

/-! UTF-8: text comes back from its bytes, valid bytes come back from their text (`encode_decode_iff`), texts are in
the order of their bytes (`encode_lt_iff`), and NUL alone is written with a zero byte.

A field that is padded with zeros therefore gives back the text up to its first NUL
(`decode_takeWhile_padded`). -/
namespace Tribyte.Text.Utf8

theorem encode_cons (c : Char) (cs : List Char) : encode (c :: cs) = String.utf8EncodeChar c ++ encode cs := by
  rw [encode, encode, List.flatMap_cons]

/-- The bytes of a character, taken apart at the first. -/
theorem encodeChar_eq_cons (c : Char) :
    ∃ b tail, String.utf8EncodeChar c = b :: tail ∧ tail.length = c.utf8Size - 1 := by
  have hlength := String.length_utf8EncodeChar c
  have hpos := c.utf8Size_pos
  cases hc : String.utf8EncodeChar c with
  | nil =>
    rw [hc, List.length_nil] at hlength
    omega
  | cons b tail =>
    rw [hc, List.length_cons] at hlength
    exact ⟨b, tail, rfl, by omega⟩

theorem decode_encodeChar_append (c : Char) (rest : List UInt8) :
    decode (String.utf8EncodeChar c ++ rest) = c :: decode rest := by
  obtain ⟨b, tail, hc, htail⟩ := encodeChar_eq_cons c
  have hchar : (b :: (tail ++ rest)).toByteArray.utf8DecodeChar? 0 = some c := by
    rw [← List.cons_append, ← hc, List.toByteArray_append]
    exact ByteArray.utf8DecodeChar?_utf8EncodeChar_append
  rw [hc, List.cons_append, decode, hchar]
  show c :: decode ((tail ++ rest).drop (c.utf8Size - 1)) = c :: decode rest
  rw [← htail, List.drop_left]

theorem decode_encode (cs : List Char) : decode (encode cs) = cs := by
  induction cs with
  | nil => rw [encode, List.flatMap_nil, decode]
  | cons c cs ih => rw [encode_cons, decode_encodeChar_append, ih]

/-- Exactly the bytes of some text are written again as they were read; in others something was replaced. -/
theorem encode_decode_iff {bytes : List UInt8} : encode (decode bytes) = bytes ↔ bytes.toByteArray.IsValidUTF8 := by
  constructor
  · intro h
    exact ⟨decode bytes, congrArg List.toByteArray h.symm⟩
  · rintro ⟨cs, h⟩
    have hbytes : bytes = encode cs := List.toByteArray_inj.mp h
    rw [hbytes, decode_encode]

/-! ### Zero bytes -/

theorem encodeChar_nul : String.utf8EncodeChar '\x00' = [0] := by decide

theorem zero_notMem_encodeChar {c : Char} (h : c ≠ '\x00') : 0 ∉ String.utf8EncodeChar c := by
  rw [String.utf8EncodeChar_eq_utf8EncodeCharFast]
  unfold String.utf8EncodeCharFast
  intro hmem
  dsimp only at hmem
  split at hmem
  · -- One byte: the character's own number, which is below 128.
    rename_i hsmall
    have hbyte : c.val.toUInt8.toNat = 0 := by
      rw [show c.val.toUInt8 = 0 by simpa [eq_comm] using hmem]
      rfl
    have hle := UInt32.le_iff_toNat_le.mp hsmall
    rw [UInt32.toNat_toUInt8] at hbyte
    apply h
    apply Char.ext
    apply UInt32.toNat_inj.mp
    show c.val.toNat = 0
    simp only [UInt32.reduceToNat] at hle
    omega
  · -- More bytes: each has its highest bit set.
    repeat' split at hmem
    all_goals simp [eq_comm (a := (0 : UInt8)), UInt8.or_eq_zero_iff] at hmem

theorem takeWhile_padded (cs : List Char) (n : Nat) :
    (encode cs ++ List.replicate n 0).takeWhile (· != 0) = encode (cs.takeWhile (· != '\x00')) := by
  induction cs with
  | nil => cases n <;> rfl
  | cons c cs ih =>
    rw [encode_cons, List.append_assoc]
    by_cases hc : c = '\x00'
    · rw [hc, encodeChar_nul]
      rfl
    · have hkept : ∀ b ∈ String.utf8EncodeChar c, (b != 0) = true := by
        intro b hb
        rw [bne_iff_ne]
        intro hzero
        exact zero_notMem_encodeChar hc (hzero ▸ hb)
      rw [List.takeWhile_append_of_pos hkept, ih, List.takeWhile_cons_of_pos (by simpa using hc), encode_cons]

/-- A padded field gives back the text up to its first NUL. -/
theorem decode_takeWhile_padded (cs : List Char) (n : Nat) :
    decode ((encode cs ++ List.replicate n 0).takeWhile (· != 0)) = cs.takeWhile (· != '\x00') := by
  rw [takeWhile_padded, decode_encode]

/-! ### Order -/

/-- The bytes of a character. The more there are the greater is the first, and each of the others holds six bits. -/
theorem encodeChar_cases (c : Char) :
    c.toNat < 0x80 ∧ String.utf8EncodeChar c = [UInt8.ofNat c.toNat] ∨
    (0x80 ≤ c.toNat ∧ c.toNat < 0x800) ∧
      String.utf8EncodeChar c = [UInt8.ofNat (c.toNat / 64 + 0xc0), UInt8.ofNat (c.toNat % 64 + 0x80)] ∨
    (0x800 ≤ c.toNat ∧ c.toNat < 0x10000) ∧
      String.utf8EncodeChar c = [UInt8.ofNat (c.toNat / 4096 + 0xe0), UInt8.ofNat (c.toNat / 64 % 64 + 0x80),
        UInt8.ofNat (c.toNat % 64 + 0x80)] ∨
    (0x10000 ≤ c.toNat ∧ c.toNat < 0x110000) ∧
      String.utf8EncodeChar c = [UInt8.ofNat (c.toNat / 262144 + 0xf0), UInt8.ofNat (c.toNat / 4096 % 64 + 0x80),
        UInt8.ofNat (c.toNat / 64 % 64 + 0x80), UInt8.ofNat (c.toNat % 64 + 0x80)] := by
  have hvalid : c.toNat < 0xd800 ∨ 0xdfff < c.toNat ∧ c.toNat < 0x110000 := c.valid
  simp only [String.utf8EncodeChar, Char.toNat_val]
  by_cases hone : c.toNat ≤ 0x7f
  · exact .inl ⟨by omega, if_pos hone⟩
  · rw [if_neg hone]
    by_cases htwo : c.toNat ≤ 0x7ff
    · rw [if_pos htwo, Nat.mod_eq_of_lt (a := c.toNat / 64) (by omega)]
      exact .inr (.inl ⟨by omega, rfl⟩)
    · rw [if_neg htwo]
      by_cases hthree : c.toNat ≤ 0xffff
      · rw [if_pos hthree, Nat.mod_eq_of_lt (a := c.toNat / 4096) (by omega)]
        exact .inr (.inr (.inl ⟨by omega, rfl⟩))
      · rw [if_neg hthree, Nat.mod_eq_of_lt (a := c.toNat / 262144) (by omega)]
        exact .inr (.inr (.inr ⟨by omega, rfl⟩))

theorem ofNat_cons_lt {m n : Nat} {bytes others : List UInt8} (hn : n < 256) (hle : m ≤ n)
    (hrest : m = n → bytes < others) : UInt8.ofNat m :: bytes < UInt8.ofNat n :: others := by
  rw [List.cons_lt_cons_iff, UInt8.lt_iff_toNat_lt, UInt8.toNat_ofNat', UInt8.toNat_ofNat']
  rcases Nat.lt_or_eq_of_le hle with hlt | heq
  · exact .inl (by omega)
  · exact .inr ⟨congrArg UInt8.ofNat heq, hrest heq⟩

theorem ofNat_cons_lt_of_lt {m n : Nat} (hn : n < 256) (hlt : m < n) (bytes others : List UInt8) :
    UInt8.ofNat m :: bytes < UInt8.ofNat n :: others :=
  ofNat_cons_lt hn (Nat.le_of_lt hlt) fun heq => absurd heq (Nat.ne_of_lt hlt)

/-- The bytes of two characters differ before either ends, and there the greater character has the greater byte. -/
theorem encodeChar_append_lt {c d : Char} (h : c < d) (bytes others : List UInt8) :
    String.utf8EncodeChar c ++ bytes < String.utf8EncodeChar d ++ others := by
  have hlt : c.toNat < d.toNat := h
  rcases encodeChar_cases c with ⟨hc, hbytes⟩ | ⟨hc, hbytes⟩ | ⟨hc, hbytes⟩ | ⟨hc, hbytes⟩ <;>
  rcases encodeChar_cases d with ⟨hd, hothers⟩ | ⟨hd, hothers⟩ | ⟨hd, hothers⟩ | ⟨hd, hothers⟩ <;>
  rw [hbytes, hothers]
  -- A character of one byte.
  · exact ofNat_cons_lt_of_lt (by omega) (by omega) _ _
  · exact ofNat_cons_lt_of_lt (by omega) (by omega) _ _
  · exact ofNat_cons_lt_of_lt (by omega) (by omega) _ _
  · exact ofNat_cons_lt_of_lt (by omega) (by omega) _ _
  -- A character of two bytes.
  · omega
  · exact ofNat_cons_lt (by omega) (by omega) fun _ => ofNat_cons_lt_of_lt (by omega) (by omega) _ _
  · exact ofNat_cons_lt_of_lt (by omega) (by omega) _ _
  · exact ofNat_cons_lt_of_lt (by omega) (by omega) _ _
  -- A character of three bytes.
  · omega
  · omega
  · exact ofNat_cons_lt (by omega) (by omega) fun _ => ofNat_cons_lt (by omega) (by omega) fun _ =>
      ofNat_cons_lt_of_lt (by omega) (by omega) _ _
  · exact ofNat_cons_lt_of_lt (by omega) (by omega) _ _
  -- A character of four bytes.
  · omega
  · omega
  · omega
  · exact ofNat_cons_lt (by omega) (by omega) fun _ => ofNat_cons_lt (by omega) (by omega) fun _ =>
      ofNat_cons_lt (by omega) (by omega) fun _ => ofNat_cons_lt_of_lt (by omega) (by omega) _ _

theorem encode_lt_encode {cs ds : List Char} (h : cs < ds) : encode cs < encode ds := by
  induction h with
  | @nil d ds =>
    obtain ⟨b, tail, hd, -⟩ := encodeChar_eq_cons d
    rw [encode_cons, hd]
    exact List.nil_lt_cons b _
  | @rel c cs d ds hcd =>
    rw [encode_cons, encode_cons]
    exact encodeChar_append_lt hcd _ _
  | @cons c cs ds _ ih =>
    rw [encode_cons, encode_cons]
    exact List.append_left_lt ih

/-- Texts are in the order of their bytes. -/
theorem encode_lt_iff {cs ds : List Char} : encode cs < encode ds ↔ cs < ds := by
  constructor
  · intro h
    apply Classical.byContradiction
    intro hnot
    rcases List.le_iff_lt_or_eq.mp (List.not_lt.mp hnot) with hlt | rfl
    · exact List.lt_asymm h (encode_lt_encode hlt)
    · exact List.lt_irrefl _ h
  · exact encode_lt_encode

end Tribyte.Text.Utf8
