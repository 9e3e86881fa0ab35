/-! Numbers as bytes, least significant byte first. -/
namespace Tribyte.LittleEndian

/-- The lowest `count` bytes of `n`; higher ones are dropped. -/
def encode : (count n : Nat) → List UInt8
  | 0, _ => []
  | count + 1, n => n.toUInt8 :: encode count (n / 256)

/-- The number that the bytes spell. -/
def decode : List UInt8 → Nat
  | [] => 0
  | b :: rest => b.toNat + 256 * decode rest

/-- How many numbers `count` bytes can spell. -/
def bound : (count : Nat) → Nat
  | 0 => 1
  | count + 1 => 256 * bound count

@[simp] theorem length_encode (count n : Nat) : (encode count n).length = count := by
  induction count generalizing n with
  | zero => rfl
  | succ count ih => simp [encode, ih]

theorem decode_encode (count n : Nat) : decode (encode count n) = n % bound count := by
  induction count generalizing n with
  | zero => simp [encode, decode, bound, Nat.mod_one]
  | succ count ih =>
    have low : n.toUInt8.toNat = n % 256 := by simp
    rw [encode, decode, ih, low, bound, Nat.mod_mul]

theorem decode_lt (bytes : List UInt8) : decode bytes < bound bytes.length := by
  induction bytes with
  | nil => simp [decode, bound]
  | cons b rest ih =>
    have := b.toNat_lt
    simp only [decode, bound, List.length_cons]
    omega

theorem encode_decode (bytes : List UInt8) : encode bytes.length (decode bytes) = bytes := by
  induction bytes with
  | nil => rfl
  | cons b rest ih =>
    have low : (b.toNat + 256 * decode rest).toUInt8 = b := by
      apply UInt8.toNat_inj.mp
      simp
    have high : (b.toNat + 256 * decode rest) / 256 = decode rest := by
      have := b.toNat_lt
      omega
    simp only [List.length_cons, decode, encode, low, high, ih]

end Tribyte.LittleEndian
