/-! Machine words: 24 bits, held as natural numbers below `Word.modulus`.

A word has a second reading as a two's-complement integer, `Word.signed`; `Word.ofSigned` is the way
back. Both work modulo `2 ^ 24`, so they also accept numbers that do not fit in a word. -/
namespace Tribyte.Word

/-- How many words there are. -/
def modulus : Nat := 0x1000000

/-- The greatest word. -/
def greatest : Nat := 0xFFFFFF

/-- The least two's-complement reading of a word. -/
def leastSigned : Int := -0x800000

/-- The greatest two's-complement reading of a word. -/
def greatestSigned : Int := 0x7FFFFF

/-- The low 24 bits. -/
def wrap (n : Nat) : Nat := n % modulus

/-- The two's-complement reading of the low 24 bits. -/
def signed (n : Nat) : Int := Int.bmod n modulus

/-- The word whose two's-complement reading agrees with `z` modulo `2 ^ 24`. -/
def ofSigned (z : Int) : Nat := (z % modulus).toNat

theorem wrap_lt (n : Nat) : wrap n < modulus := Nat.mod_lt _ (by decide)

theorem byte_lt (b : UInt8) : b.toNat < modulus := Nat.lt_trans b.toNat_lt (by decide)

theorem wrap_of_lt {n : Nat} (h : n < modulus) : wrap n = n := Nat.mod_eq_of_lt h

theorem ofSigned_lt (z : Int) : ofSigned z < modulus := by
  simp only [ofSigned, modulus]
  omega

/-- The signed reading is the one number in its range that agrees with the word modulo `2 ^ 24`. -/
theorem signed_eq_iff {n : Nat} {z : Int} :
    signed n = z ↔ leastSigned ≤ z ∧ z ≤ greatestSigned ∧ z % modulus = n % modulus := by
  simp only [signed, Int.bmod, modulus, leastSigned, greatestSigned]
  omega

theorem ofSigned_signed (n : Nat) : ofSigned (signed n) = n % modulus := by
  simp only [ofSigned, signed, Int.bmod, modulus]
  omega

theorem signed_ofSigned {z : Int} (hleast : leastSigned ≤ z) (hgreatest : z ≤ greatestSigned) :
    signed (ofSigned z) = z := by
  refine signed_eq_iff.mpr ⟨hleast, hgreatest, ?_⟩
  simp only [ofSigned, modulus]
  omega

/-- Below the sign bit a word is its own signed reading. -/
theorem signed_of_le {n : Nat} (h : n ≤ 0x7FFFFF) : signed n = n := by
  refine signed_eq_iff.mpr ⟨?_, ?_, rfl⟩ <;> simp only [leastSigned, greatestSigned] <;> omega

end Tribyte.Word
