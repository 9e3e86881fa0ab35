import Mathlib.Data.Nat.Digits.Defs
import Tribyte.Text.Numeral

/-! Numerals and the numbers they spell.

`worth` gives digits of all bases up to 16 their values, and `Spells` says which number a numeral stands for, leading
zeros and all. The readers accept exactly the numerals of their bases (`natural?_eq_some_iff`,
`Hexadecimal.read?_eq_some_iff`, `integer?_eq_some_iff`), and the numeral that is printed for a number spells it
(`spells_toDigits`). -/
namespace Tribyte.Text.Numeral

/-! ### Digits -/

/-- What a digit of any base up to 16 is worth, in either case. A character that is no digit is worth 16. -/
def worth (c : Char) : Nat := "0123456789abcdef".toList.idxOf c.toLower

/-- The tests of the readers against the worth of a character. -/
structure Weighed (c : Char) : Prop where
  decimal : c.isDigit ↔ worth c < 10
  hexadecimal : Hexadecimal.isDigit c ↔ worth c < 16
  decimalValue : c.isDigit → c.toNat - '0'.toNat = worth c
  hexadecimalValue : Hexadecimal.isDigit c → Hexadecimal.digitValue c = worth c

theorem weighed_of_ascii {c : Char} (h : c.toNat < 128) : Weighed c := by
  have htable : ∀ n < 128, (((Char.ofNat n).isDigit ↔ worth (Char.ofNat n) < 10) ∧
      (Hexadecimal.isDigit (Char.ofNat n) ↔ worth (Char.ofNat n) < 16)) ∧
      ((Char.ofNat n).isDigit → (Char.ofNat n).toNat - '0'.toNat = worth (Char.ofNat n)) ∧
      (Hexadecimal.isDigit (Char.ofNat n) → Hexadecimal.digitValue (Char.ofNat n) = worth (Char.ofNat n)) := by
    decide +kernel
  obtain ⟨⟨hdecimal, hhexadecimal⟩, hvalue, hvalue'⟩ := htable c.toNat h
  rw [Char.ofNat_toNat] at *
  exact ⟨hdecimal, hhexadecimal, hvalue, hvalue'⟩

/-- No digit stands beyond ASCII. -/
theorem worth_of_not_ascii {c : Char} (h : 128 ≤ c.toNat) : worth c = 16 := by
  have hvalue : 128 ≤ c.val.toNat := h
  have hlower : c.toLower = c := by
    refine dif_neg ?_
    simp only [ge_iff_le, UInt32.le_iff_toNat_le, not_and, Nat.not_le]
    intro _
    exact Nat.lt_of_lt_of_le (by decide) hvalue
  rw [worth, hlower, List.idxOf_eq_length]
  · rfl
  · intro hmem
    have hascii : "0123456789abcdef".toList.all (·.toNat < 128) := by decide
    have := of_decide_eq_true (List.all_eq_true.mp hascii c hmem)
    omega

theorem weighed_of_not_ascii {c : Char} (h : 128 ≤ c.toNat) : Weighed c := by
  have hvalue : 128 ≤ c.val.toNat := h
  have hworth := worth_of_not_ascii h
  have hdecimal : c.isDigit = false := by
    simp only [Char.isDigit, Bool.and_eq_false_iff, decide_eq_false_iff_not, UInt32.le_iff_toNat_le, ge_iff_le]
    exact .inr (Nat.not_le.mpr (Nat.lt_of_lt_of_le (by decide) hvalue))
  have hhexadecimal : Hexadecimal.isDigit c = false := by
    simp only [Hexadecimal.isDigit, hdecimal, Bool.false_or, Bool.or_eq_false_iff, Bool.and_eq_false_iff,
      decide_eq_false_iff_not, Char.le_def, UInt32.le_iff_toNat_le]
    exact ⟨.inr (Nat.not_le.mpr (Nat.lt_of_lt_of_le (by decide) hvalue)),
      .inr (Nat.not_le.mpr (Nat.lt_of_lt_of_le (by decide) hvalue))⟩
  constructor
  · simp [hdecimal, hworth]
  · simp [hhexadecimal, hworth]
  · simp [hdecimal]
  · simp [hhexadecimal]

theorem weighed (c : Char) : Weighed c := by
  rcases Nat.lt_or_ge c.toNat 128 with h | h
  · exact weighed_of_ascii h
  · exact weighed_of_not_ascii h

theorem worth_digitChar {d : Nat} (h : d < 16) : worth d.digitChar = d := by
  have htable : ∀ d < 16, worth (Nat.digitChar d) = d := by decide
  exact htable d h

/-- A digit in upper case. -/
theorem worth_toUpper {c : Char} (h : worth c < 16) : worth c.toUpper = worth c ∧ c.toUpper.isLower = false := by
  have htable : ∀ n < 128, worth (Char.ofNat n).toUpper = worth (Char.ofNat n) ∧
      (Char.ofNat n).toUpper.isLower = false := by decide +kernel
  rcases Nat.lt_or_ge c.toNat 128 with hascii | hother
  · have hc := htable c.toNat hascii
    rwa [Char.ofNat_toNat] at hc
  · rw [worth_of_not_ascii hother] at h
    omega

/-! ### Numerals -/

/-- One or more digits of a base, most significant first, that spell `n`. -/
structure Spells (base : Nat) (ds : List Char) (n : Nat) : Prop where
  ne_nil : ds ≠ []
  digits : ∀ c ∈ ds, worth c < base
  value : Nat.ofDigits base (ds.map worth).reverse = n

namespace Spells

variable {base n d : Nat} {ds : List Char} {c : Char}

theorem singleton (h : worth c < base) : Spells base [c] (worth c) where
  ne_nil := List.cons_ne_nil _ _
  digits := List.forall_mem_singleton.mpr h
  value := Nat.ofDigits_singleton

/-- One more digit behind a numeral. -/
theorem concat (hds : Spells base ds n) (h : worth c < base) : Spells base (ds ++ [c]) (base * n + worth c) where
  ne_nil := List.concat_ne_nil _ _
  digits := List.forall_mem_append.mpr ⟨hds.digits, List.forall_mem_singleton.mpr h⟩
  value := by
    rw [List.map_append, List.reverse_append, List.map_singleton, List.reverse_singleton, List.singleton_append,
      Nat.ofDigits_cons, hds.value, Nat.add_comm]

/-- Zeros before a numeral do not count. -/
theorem replicate_append (hds : Spells base ds n) (hbase : 0 < base) (count : Nat) :
    Spells base (List.replicate count '0' ++ ds) n := by
  have hzero : worth '0' = 0 := by decide
  refine ⟨fun h => hds.ne_nil (List.append_eq_nil_iff.mp h).2, ?_, ?_⟩
  · refine List.forall_mem_append.mpr ⟨?_, hds.digits⟩
    intro c hc
    rw [List.eq_of_mem_replicate hc, hzero]
    exact hbase
  · have hzeros : Nat.ofDigits base (List.replicate count 0) = 0 := by
      induction count with
      | zero => rfl
      | succ count ih => rw [List.replicate_succ, Nat.ofDigits_cons, ih, Nat.mul_zero]
    rw [List.map_append, List.reverse_append, Nat.ofDigits_append, List.map_replicate, hzero, List.reverse_replicate,
      hzeros, Nat.mul_zero, Nat.add_zero, hds.value]

/-- A numeral in upper case spells the same number. -/
theorem toUpper (hds : Spells base ds n) (hbase : base ≤ 16) : Spells base (ds.map Char.toUpper) n := by
  have hworth : ∀ c ∈ ds, worth c.toUpper = worth c :=
    fun c hc => (worth_toUpper (Nat.lt_of_lt_of_le (hds.digits c hc) hbase)).1
  refine ⟨mt List.map_eq_nil_iff.mp hds.ne_nil, ?_, ?_⟩
  · intro c hc
    obtain ⟨d, hd, rfl⟩ := List.mem_map.mp hc
    rw [hworth d hd]
    exact hds.digits d hd
  · rw [List.map_map, ← hds.value]
    exact congrArg _ (congrArg List.reverse (List.map_congr_left hworth))

end Spells

/-- The numeral that is printed for a number spells it. -/
theorem spells_toDigits {base : Nat} (hleast : 1 < base) (hmost : base ≤ 16) (n : Nat) :
    Spells base (Nat.toDigits base n) n := by
  have hdigit {d : Nat} (h : d < base) : worth d.digitChar = d := worth_digitChar (Nat.lt_of_lt_of_le h hmost)
  induction n using Nat.strongRecOn with
  | ind n ih =>
    rw [Nat.toDigits_eq_if hleast]
    split
    · rename_i hsmall
      have hspells : Spells base [n.digitChar] (worth n.digitChar) := .singleton (by rwa [hdigit hsmall])
      rwa [hdigit hsmall] at hspells
    · have hlast : n % base < base := Nat.mod_lt n (by omega)
      have hspells := (ih (n / base) (Nat.div_lt_self (by omega) hleast)).concat (c := (n % base).digitChar)
        (by rwa [hdigit hlast])
      rwa [hdigit hlast, Nat.div_add_mod] at hspells

/-! ### Readers -/

/-- A reader that tests and weighs digits as their worth says reads the numerals of its base, from the left. -/
theorem spells_iff {base n : Nat} {isDigit : Char → Bool} {digitValue : Char → Nat} {cs : List Char}
    (htest : ∀ c, isDigit c ↔ worth c < base) (hweigh : ∀ c, isDigit c → digitValue c = worth c) :
    Spells base cs n ↔ (cs ≠ [] ∧ cs.all isDigit) ∧ cs.foldl (fun n c => base * n + digitValue c) 0 = n := by
  have hdigits : cs.all isDigit ↔ ∀ c ∈ cs, worth c < base := by simp only [List.all_eq_true, htest]
  have hvalue (h : cs.all isDigit) :
      cs.foldl (fun n c => base * n + digitValue c) 0 = Nat.ofDigits base (cs.map worth).reverse := by
    rw [← List.map_congr_left fun c hc => hweigh c (List.all_eq_true.mp h c hc), Nat.ofDigits_eq_foldr,
      List.foldr_reverse, List.foldl_map]
    simp only [Nat.cast_id, Nat.add_comm]
  constructor
  · intro h
    have hall := hdigits.mpr h.digits
    exact ⟨⟨h.ne_nil, hall⟩, (hvalue hall).trans h.value⟩
  · rintro ⟨⟨hne, hall⟩, hn⟩
    exact ⟨hne, hdigits.mp hall, (hvalue hall).symm.trans hn⟩

theorem natural?_eq_some_iff {cs : List Char} {n : Nat} : natural? cs = some n ↔ Spells 10 cs n := by
  rw [spells_iff (fun c => (weighed c).decimal) fun c => (weighed c).decimalValue, natural?]
  split
  · rename_i hdigits
    rw [and_iff_right hdigits, Option.some_inj]
    rfl
  · rename_i hdigits
    exact iff_of_false (Option.some_ne_none n).symm fun h => hdigits h.1

/-- A sign, if any, and what it makes of a number. -/
inductive Signs : List Char → Nat → Int → Prop
  | none {n : Nat} : Signs [] n n
  | plus {n : Nat} : Signs ['+'] n n
  | minus {n : Nat} : Signs ['-'] n (-n)

theorem integer?_eq_some_iff {cs : List Char} {z : Int} :
    integer? cs = some z ↔ ∃ sign ds n, cs = sign ++ ds ∧ Spells 10 ds n ∧ Signs sign n z := by
  have hsign : ¬worth '-' < 10 ∧ ¬worth '+' < 10 := by decide
  constructor
  · intro h
    unfold integer? at h
    split at h
    all_goals
      obtain ⟨_, hcast, rfl⟩ := Option.map_eq_some_iff.mp h
      obtain ⟨n, hn, hz⟩ := Option.bind_eq_some_iff.mp hcast
      cases hz
    · exact ⟨['-'], _, n, rfl, natural?_eq_some_iff.mp hn, .minus⟩
    · exact ⟨['+'], _, n, rfl, natural?_eq_some_iff.mp hn, .plus⟩
    · exact ⟨[], _, n, rfl, natural?_eq_some_iff.mp hn, .none⟩
  · intro h
    obtain ⟨sign, ds, n, rfl, hds, hz⟩ := h
    have hnatural := natural?_eq_some_iff.mpr hds
    cases hz with
    | minus | plus =>
      rw [List.singleton_append, integer?, hnatural]
      rfl
    | none =>
      rw [List.nil_append, integer?, hnatural]
      · rfl
      · rintro cs rfl
        exact hsign.1 (hds.digits '-' (List.mem_cons_self ..))
      · rintro cs rfl
        exact hsign.2 (hds.digits '+' (List.mem_cons_self ..))

end Tribyte.Text.Numeral

namespace Tribyte.Text.Hexadecimal

open Numeral

theorem read?_eq_some_iff {count n : Nat} {cs : List Char} (hcount : 0 < count) :
    read? count cs = some n ↔ cs.length = count ∧ Spells 16 cs n := by
  have hne (h : cs.length = count) : cs ≠ [] := List.ne_nil_of_length_pos (h ▸ hcount)
  rw [spells_iff (fun c => (weighed c).hexadecimal) fun c => (weighed c).hexadecimalValue, read?]
  split
  · rename_i hdigits
    rw [and_iff_right hdigits.1, and_iff_right ⟨hne hdigits.1, hdigits.2⟩, Option.some_inj]
    rfl
  · rename_i hdigits
    exact iff_of_false (Option.some_ne_none n).symm fun h => hdigits ⟨h.1, h.2.1.2⟩

end Tribyte.Text.Hexadecimal
