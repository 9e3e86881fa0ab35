import Tribyte.Proofs.Source.Literals
import Tribyte.Proofs.Text.Numerals

/-! Which texts are word literals, and the words they stand for.

There are three forms (`IsHexadecimal`, `IsUnsigned`, `IsSigned`). They are tried in this order, but no text has two of
them, since neither the mark of the first nor the ending of the second is a digit or a sign. So the order does not
matter (`word_eq_ok_iff`), and each form alone reaches every word (`word_literals_exact`). -/
namespace Tribyte.Literal

open Text Numeral

/-! ### Three forms -/

/-- Six hexadecimal digits behind `0x`. -/
def IsHexadecimal (cs : List Char) (v : Nat) : Prop :=
  ∃ ds, cs = '0' :: 'x' :: ds ∧ ds.length = 6 ∧ Spells 16 ds v

/-- A decimal before `U`, up to the greatest word, in a text that does not start with `0x`. -/
def IsUnsigned (cs : List Char) (v : Nat) : Prop :=
  (∀ rest, cs ≠ '0' :: 'x' :: rest) ∧ ∃ ds, cs = ds ++ ['U'] ∧ Spells 10 ds v ∧ v ≤ Word.greatest

/-- A decimal with or without a sign, in the range of signed words, for the word that agrees with it modulo
`2 ^ 24`. -/
def IsSigned (cs : List Char) (v : Nat) : Prop :=
  ∃ sign ds n z, cs = sign ++ ds ∧ Spells 10 ds n ∧ Signs sign n z ∧ Word.leastSigned ≤ z ∧
    z ≤ Word.greatestSigned ∧ (v : Int) = z % Word.modulus

theorem IsSigned.sign_or_digit {cs : List Char} {v : Nat} (h : IsSigned cs v) {c : Char} (hc : c ∈ cs) :
    c = '+' ∨ c = '-' ∨ worth c < 10 := by
  obtain ⟨sign, ds, n, z, rfl, hds, hsign, -⟩ := h
  rcases List.mem_append.mp hc with hc | hc
  · cases hsign with
    | none => cases hc
    | plus => exact .inl (List.mem_singleton.mp hc)
    | minus => exact .inr (.inl (List.mem_singleton.mp hc))
  · exact .inr (.inr (hds.digits c hc))

theorem not_isSigned {cs : List Char} {v : Nat} {c : Char} (hc : c ∈ cs) (hplus : c ≠ '+') (hminus : c ≠ '-')
    (hworth : ¬worth c < 10) : ¬IsSigned cs v := by
  intro h
  rcases h.sign_or_digit hc with h | h | h
  · exact hplus h
  · exact hminus h
  · exact hworth h

/-! ### The readers -/

theorem unsignedWord_eq_ok_iff {text : String} {ds : List Char} {v : Nat} :
    unsignedWord text ds = .ok v ↔ Spells 10 ds v ∧ v ≤ Word.greatest := by
  have hwide : Word.greatest < greatest64 := by decide
  rw [← natural?_eq_some_iff]
  unfold unsignedWord
  constructor
  · intro h
    split at h
    · cases h
    · rename_i hn
      split at h
      · cases h
      · split at h
        · cases h
        · cases h
          exact ⟨hn, Nat.le_of_not_lt ‹_›⟩
  · rintro ⟨hn, hfits⟩
    rw [hn]
    show (if greatest64 < v then _ else _) = _
    rw [if_neg (by omega), if_neg (Nat.not_lt.mpr hfits)]

theorem signedWord_eq_ok_iff {text : String} {cs : List Char} {v : Nat} :
    signedWord text cs = .ok v ↔ IsSigned cs v := by
  have hword (z : Int) : Word.ofSigned z = v ↔ (v : Int) = z % Word.modulus := by
    simp only [Word.ofSigned, Word.modulus]
    omega
  unfold signedWord
  constructor
  · intro h
    split at h
    · cases h
    · rename_i z hz
      obtain ⟨sign, ds, n, hcs, hds, hsign⟩ := integer?_eq_some_iff.mp hz
      split at h
      · cases h
      · split at h
        · cases h
        · rename_i hrange
          obtain ⟨hleast, hgreatest⟩ := not_or.mp hrange
          exact ⟨sign, ds, n, z, hcs, hds, hsign, Int.not_lt.mp hleast, Int.not_lt.mp hgreatest,
            (hword z).mp (Except.ok.inj h)⟩
  · rintro ⟨sign, ds, n, z, hcs, hds, hsign, hleast, hgreatest, hv⟩
    have hwide : ¬(z < -0x8000000000000000 ∨ 0x7FFFFFFFFFFFFFFF < z) := by
      simp only [Word.leastSigned, Word.greatestSigned] at hleast hgreatest
      omega
    have hrange : ¬(z < Word.leastSigned ∨ Word.greatestSigned < z) := by omega
    rw [integer?_eq_some_iff.mpr ⟨sign, ds, n, hcs, hds, hsign⟩]
    show (if z < -0x8000000000000000 ∨ 0x7FFFFFFFFFFFFFFF < z then _ else _) = _
    rw [if_neg hwide, if_neg hrange, (hword z).mpr hv]

theorem word_of_marked {text : String} {ds : List Char} (h : text.toList = '0' :: 'x' :: ds) (v : Nat) :
    word text = .ok v ↔ Hexadecimal.read? 6 ds = some v := by
  simp only [word, h]
  cases Hexadecimal.read? 6 ds <;> simp

theorem word_of_unsigned {text : String} {ds : List Char} (hmark : ∀ rest, text.toList ≠ '0' :: 'x' :: rest)
    (h : text.toList = ds ++ ['U']) : word text = unsignedWord text ds := by
  unfold word
  split
  · exact absurd ‹_› (hmark _)
  · rw [dropSuffix?_eq_some_iff.mpr h]

theorem word_of_signed {text : String} (hmark : ∀ rest, text.toList ≠ '0' :: 'x' :: rest)
    (h : ∀ ds, text.toList ≠ ds ++ ['U']) : word text = signedWord text text.toList := by
  unfold word
  split
  · exact absurd ‹_› (hmark _)
  · split
    · exact absurd (dropSuffix?_eq_some_iff.mp ‹_›) (h _)
    · rfl

/-- The word literals are the texts of the three forms. -/
theorem word_eq_ok_iff {text : String} {v : Nat} :
    word text = .ok v ↔ IsHexadecimal text.toList v ∨ IsUnsigned text.toList v ∨ IsSigned text.toList v := by
  by_cases hmark : ∃ ds, text.toList = '0' :: 'x' :: ds
  · obtain ⟨ds, hds⟩ := hmark
    have hunsigned : ¬IsUnsigned text.toList v := fun h => h.1 ds hds
    have hsigned : ¬IsSigned text.toList v :=
      not_isSigned (c := 'x') (by simp [hds]) (by decide) (by decide) (by decide)
    rw [word_of_marked hds, Hexadecimal.read?_eq_some_iff (by decide), or_iff_left (not_or.mpr ⟨hunsigned, hsigned⟩)]
    simp [IsHexadecimal, hds]
  · have hunmarked : ∀ rest, text.toList ≠ '0' :: 'x' :: rest := fun rest h => hmark ⟨rest, h⟩
    have hhexadecimal : ¬IsHexadecimal text.toList v := fun ⟨ds, hds, _⟩ => hunmarked ds hds
    rw [or_iff_right hhexadecimal]
    by_cases hending : ∃ ds, text.toList = ds ++ ['U']
    · obtain ⟨ds, hds⟩ := hending
      have hsigned : ¬IsSigned text.toList v :=
        not_isSigned (c := 'U') (by simp [hds]) (by decide) (by decide) (by decide)
      rw [word_of_unsigned hunmarked hds, unsignedWord_eq_ok_iff, or_iff_left hsigned, IsUnsigned,
        and_iff_right hunmarked]
      simp [hds]
    · have hunsigned : ¬IsUnsigned text.toList v := fun ⟨_, ds, hds, _⟩ => hending ⟨ds, hds⟩
      rw [word_of_signed hunmarked fun ds h => hending ⟨ds, h⟩, signedWord_eq_ok_iff, or_iff_right hunsigned]

/-! ### Printed words -/

section Printed

variable {v : Nat} (h : v ≤ Word.greatest)
include h

theorem word_hexadecimal : word ("0x" ++ Hexadecimal.lower 6 v) = .ok v := by
  have hlength : (Nat.toDigits 16 v).length ≤ 6 :=
    (Nat.length_toDigits_le_iff (by decide) (by decide)).mpr (Nat.lt_of_le_of_lt h (by decide))
  refine word_eq_ok_iff.mpr (.inl ⟨(Nat.toDigits 16 v).leftpad 6 '0', ?_, ?_, ?_⟩)
  · simp [Hexadecimal.lower]
  · rw [List.length_leftpad, Nat.max_eq_left hlength]
  · exact (spells_toDigits (by decide) (by decide) v).replicate_append (by decide) _

theorem word_unsigned : word (toString v ++ "U") = .ok v := by
  have hspells : Spells 10 (Nat.toDigits 10 v) v := spells_toDigits (by decide) (by decide) v
  have htext : (toString v ++ "U").toList = Nat.toDigits 10 v ++ ['U'] := by
    rw [Nat.toString_eq_ofList_toDigits, String.toList_append, String.toList_ofList]
    rfl
  refine word_eq_ok_iff.mpr (.inr (.inl ⟨?_, Nat.toDigits 10 v, htext, hspells, h⟩))
  intro rest hrest
  have hx : 'x' ∈ Nat.toDigits 10 v ++ ['U'] := by
    rw [← htext, hrest]
    simp
  rcases List.mem_append.mp hx with hx | hx
  · exact absurd (hspells.digits 'x' hx) (by decide)
  · exact absurd hx (by decide)

theorem word_signed : word (toString (Word.signed v)) = .ok v := by
  have hspells (n : Nat) : Spells 10 (Nat.toDigits 10 n) n := spells_toDigits (by decide) (by decide) n
  obtain ⟨hleast, hgreatest, hmod⟩ := Word.signed_eq_iff.mp (rfl : Word.signed v = Word.signed v)
  have hv : (v : Int) = Word.signed v % Word.modulus := by
    rw [hmod, Int.emod_eq_of_lt (by omega) (by exact_mod_cast Nat.lt_of_le_of_lt h (by decide))]
  refine word_eq_ok_iff.mpr (.inr (.inr ?_))
  generalize Word.signed v = z at *
  -- Zero has no sign when it is printed, so that the cases are split by the sign.
  by_cases hsign : 0 ≤ z
  · obtain ⟨n, rfl⟩ := Int.eq_ofNat_of_zero_le hsign
    refine ⟨[], Nat.toDigits 10 n, n, n, ?_, hspells n, .none, hleast, hgreatest, hv⟩
    show (Int.repr n).toList = _
    rw [Int.repr_eq_if, if_pos hsign, Int.toNat_natCast, Nat.repr_eq_ofList_toDigits, String.toList_ofList,
      List.nil_append]
  · obtain ⟨n, rfl⟩ : ∃ n : Nat, z = -n := ⟨(-z).toNat, by omega⟩
    refine ⟨['-'], Nat.toDigits 10 n, n, -n, ?_, hspells n, .minus, hleast, hgreatest, hv⟩
    show (Int.repr (-n)).toList = _
    rw [Int.repr_eq_if, if_neg hsign, Int.neg_neg, Int.toNat_natCast, Nat.repr_eq_ofList_toDigits, String.toList_append,
      String.toList_ofList, String.toList_ofList]

end Printed

/-- A decimal of a number below the sign bit. -/
theorem word_decimal {n : Nat} (h : n ≤ 0x7FFFFF) : word (toString n) = .ok n := by
  have hsigned := word_signed (Nat.le_trans h (by decide))
  rw [Word.signed_of_le h] at hsigned
  exact hsigned

/-- The word literals are the texts of three forms, a literal stands for a word, and every word has a literal of each
form: its six hexadecimal digits, its decimal, and the decimal of its signed value. -/
theorem word_literals_exact :
    (∀ text v, word text = .ok v ↔
      IsHexadecimal text.toList v ∨ IsUnsigned text.toList v ∨ IsSigned text.toList v) ∧
    (∀ text v, word text = .ok v → v ≤ 0xFFFFFF) ∧
    ∀ v, v ≤ 0xFFFFFF →
      word ("0x" ++ Hexadecimal.lower 6 v) = .ok v ∧
      word (toString v ++ "U") = .ok v ∧
      word (toString (Word.signed v)) = .ok v :=
  ⟨fun _ _ => word_eq_ok_iff, fun _ _ => word_le, fun _ h => ⟨word_hexadecimal h, word_unsigned h, word_signed h⟩⟩

/-- The word of all ones is the greatest unsigned word and minus one. -/
theorem word_literals_of_ones :
    word "0xffffff" = .ok 0xFFFFFF ∧ word "16777215U" = .ok 0xFFFFFF ∧ word "-1" = .ok 0xFFFFFF := by
  obtain ⟨hhexadecimal, hunsigned, hsigned⟩ := word_literals_exact.2.2 0xFFFFFF (by decide)
  have hprinted : "0x" ++ Hexadecimal.lower 6 0xFFFFFF = "0xffffff" ∧ toString 0xFFFFFF ++ "U" = "16777215U" ∧
      toString (Word.signed 0xFFFFFF) = "-1" := by decide
  rw [hprinted.1] at hhexadecimal
  rw [hprinted.2.1] at hunsigned
  rw [hprinted.2.2] at hsigned
  exact ⟨hhexadecimal, hunsigned, hsigned⟩

end Tribyte.Literal
