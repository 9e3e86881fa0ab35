import Tribyte.Proofs.Source.Literals

/-! Every string of ASCII bytes can be written as a quoted literal.

`Literal.escape` writes one byte, either behind a backslash or as the character it stands for (`Literal.escape_cases`).
So what is written is read back (`Literal.bytes_quoted`), and no quote or comment's mark in it is taken for the end of
the literal: the statement holds the bytes, whatever they are and whether or not a comment follows
(`bytes_expressible`). -/
namespace Tribyte

open Text

namespace Literal

/-- A byte as quoted text writes it. -/
def escape (b : UInt8) : List Char :=
  if b = 10 then ['\\', 'n']
  else if b = 9 then ['\\', 't']
  else if b = 13 then ['\\', 'r']
  else if b = 0 then ['\\', '0']
  else if b = 92 then ['\\', '\\']
  else if b = 39 then ['\\', '\'']
  else [Char.ofNat b.toNat]

/-- The literal for these bytes. -/
def quoted (bs : List UInt8) : String := "c'" ++ String.ofList (bs.flatMap escape) ++ "'"

theorem toList_quoted (bs : List UInt8) : (quoted bs).toList = 'c' :: '\'' :: (bs.flatMap escape ++ ['\'']) := by
  simp [quoted]

theorem toNat_ofNat_ascii {n : Nat} (h : n < 128) : (Char.ofNat n).toNat = n := by
  have hvalid : n.isValidChar := .inl (by omega)
  rw [Char.ofNat, dif_pos hvalid]
  rfl

/-- A byte is written behind a backslash, or as a character that needs none. -/
theorem escape_cases {b : UInt8} (h : b.toNat < 128) :
    (∃ c, escape b = ['\\', c] ∧ escaped? c = some b) ∨
      ∃ c, escape b = [c] ∧ c ≠ '\\' ∧ c ≠ '\'' ∧ c.toNat < 128 ∧ c.toNat.toUInt8 = b := by
  have hchar := toNat_ofNat_ascii h
  unfold escape
  repeat' split
  iterate 6
    subst b
    exact .inl ⟨_, rfl, rfl⟩
  rename_i hbackslash hquote
  have hne {c : Char} (hb : b ≠ c.toNat.toUInt8) : Char.ofNat b.toNat ≠ c := by
    rintro rfl
    rw [hchar] at hb
    exact hb UInt8.ofNat_toNat.symm
  exact .inr ⟨_, rfl, hne hbackslash, hne hquote, hchar.symm ▸ h, by rw [hchar]; exact UInt8.ofNat_toNat⟩

theorem unescape_escape_append {b : UInt8} (h : b.toNat < 128) (text : String) (rest : List Char) :
    unescape text (escape b ++ rest) = (unescape text rest).map (b :: ·) := by
  rcases escape_cases h with ⟨c, hescape, hc⟩ | ⟨c, hescape, hbackslash, -, hascii, hbyte⟩
  · rw [hescape, List.cons_append, List.singleton_append, unescape, hc]
  · rw [hescape, List.singleton_append, unescape_cons text hbackslash, if_pos hascii, hbyte]

theorem quotesEscaped_escape_append {b : UInt8} (h : b.toNat < 128) {rest : List Char} (hrest : quotesEscaped rest) :
    quotesEscaped (escape b ++ rest) := by
  rcases escape_cases h with ⟨c, hescape, -⟩ | ⟨c, hescape, hbackslash, hquote, -⟩
  · rw [hescape]
    exact hrest
  · rw [hescape, List.singleton_append, quotesEscaped]
    · exact Bool.and_eq_true_iff.mpr ⟨bne_iff_ne.mpr hquote, hrest⟩
    · exact fun _ _ h => absurd h hbackslash

theorem lineFeed_notMem_escape {b : UInt8} (h : b.toNat < 128) : '\n' ∉ escape b := by
  rcases escape_cases h with ⟨c, hescape, hc⟩ | ⟨c, hescape, -, -, -, hbyte⟩
  · rw [hescape]
    intro hmem
    obtain rfl : '\n' = c := by simpa using hmem
    cases hc
  · intro hmem
    rw [hescape] at hmem
    obtain rfl : '\n' = c := by simpa using hmem
    subst hbyte
    exact absurd hescape (by decide)

section
variable {bs : List UInt8} (h : ∀ b ∈ bs, b.toNat < 128)
include h

theorem unescape_flatMap_escape (text : String) : unescape text (bs.flatMap escape) = .ok bs := by
  induction bs with
  | nil => rfl
  | cons b bs ih =>
    obtain ⟨hb, hbs⟩ := List.forall_mem_cons.mp h
    rw [List.flatMap_cons, unescape_escape_append hb, ih hbs]
    rfl

theorem quotesEscaped_flatMap_escape : quotesEscaped (bs.flatMap escape) := by
  induction bs with
  | nil => rfl
  | cons b bs ih =>
    obtain ⟨hb, hbs⟩ := List.forall_mem_cons.mp h
    exact quotesEscaped_escape_append hb (ih hbs)

/-- The literal for ASCII bytes is read as these bytes. -/
theorem bytes_quoted : bytes (quoted bs) = .ok bs := by
  have hbody : dropSuffix? ['\''] (bs.flatMap escape ++ ['\'']) = some (bs.flatMap escape) :=
    dropSuffix?_eq_some_iff.mpr rfl
  simp [bytes, toList_quoted, hbody, unescape_flatMap_escape h]

theorem neutral_quoted : Neutral (quoted bs).toList := by
  apply neutral_of_quotesEscaped (bytes_quoted h)
  intro body hbody
  rw [toList_quoted] at hbody
  have hsame : bs.flatMap escape = body := List.append_cancel_right (List.cons.inj (List.cons.inj hbody).2).2
  exact hsame ▸ quotesEscaped_flatMap_escape h

/-- The literal stands on one line. -/
theorem lineFeed_notMem_quoted : '\n' ∉ (quoted bs).toList := by
  have hescape : '\n' ∉ bs.flatMap escape := by
    intro hmem
    obtain ⟨b, hb, hmem⟩ := List.mem_flatMap.mp hmem
    exact lineFeed_notMem_escape (h b hb) hmem
  simpa [toList_quoted] using hescape

end

end Literal

/-- What may stand behind the operand of a line: nothing, or a comment. -/
def IsTail (ending : String) : Prop := ending = "" ∨ ∃ comment, ending = " #" ++ comment

theorem trim_stripComment_tail {cs : List Char} (htrimmed : IsTrimmed cs) (hneutral : Neutral cs) {ending : String}
    (hending : IsTail ending) : trim (stripComment .outside (cs ++ ending.toList)) = cs := by
  rcases hending with rfl | ⟨comment, rfl⟩
  · have hclear : stripComment .outside cs = cs := hneutral.1
    have hkept : stripComment .outside (cs ++ "".toList) = [] ++ cs ++ [] := by
      simpa using hclear
    rw [hkept]
    exact trim_eq (by decide) (.inr htrimmed) (by decide)
  · have hcomment : (" #" ++ comment).toList = ' ' :: '#' :: comment.toList := by simp
    rw [hcomment]
    exact (trim_stripComment_comment htrimmed comment.toList).mpr hneutral

theorem Statement.parse_bytes {label text : String} {bs : List UInt8} (hlabel : isLabel label)
    (hbytes : Literal.bytes text = .ok bs) (hcount : 1 ≤ bs.length ∧ bs.length ≤ blockSize) (location line : Nat) :
    parse [label, "BYTE", text] location line = .ok {
      mnemonic := "BYTE"
      operation := .directive .byte
      location
      line
      label := some label
      operand := some text
      payload := .bytes bs } := by
  refine parse_eq_ok_iff.mpr
    ⟨⟨some label, "BYTE", some text, .directive .byte⟩, .bytes bs, rfl, if_pos hlabel, ?_, rfl⟩
  refine Checked.bind_eq_ok_iff.mpr ⟨text, rfl, ?_⟩
  rw [hbytes]
  exact if_pos hcount

/-- ASCII bytes can be written as a literal, which is read as these bytes. A line with that literal behind a label has
it as its operand, with a comment or without, and if there are at most 30 of them the statement holds the bytes. -/
theorem bytes_expressible (bs : List UInt8) (hascii : ∀ b ∈ bs, b.toNat < 128) :
    Literal.bytes (Literal.quoted bs) = .ok bs ∧
    ∀ label ending, isLabel label → IsTail ending →
      lineFields (label ++ " BYTE " ++ Literal.quoted bs ++ ending).toList = [label, "BYTE", Literal.quoted bs] ∧
      (1 ≤ bs.length → bs.length ≤ 30 → ∀ location line,
        ∃ s,
          Statement.parse (lineFields (label ++ " BYTE " ++ Literal.quoted bs ++ ending).toList) location line = .ok s ∧
          s.label = some label ∧ s.payload = .bytes bs ∧ s.size = bs.length) := by
  have hbytes := Literal.bytes_quoted hascii
  have htrimmed := Literal.bytes_isTrimmed hbytes
  refine ⟨hbytes, ?_⟩
  intro label ending hlabel hending
  have hline : (label ++ " BYTE " ++ Literal.quoted bs ++ ending).toList =
      label.toList ++ ' ' :: ("BYTE".toList ++ ' ' :: ((Literal.quoted bs).toList ++ ending.toList)) := by
    simp
  have hfields : lineFields (label ++ " BYTE " ++ Literal.quoted bs ++ ending).toList =
      [label, "BYTE", Literal.quoted bs] := by
    rw [hline, lineFields_symbols (isSymbol_of_isLabel hlabel) (by decide)]
    exact ⟨trim_stripComment_tail htrimmed (Literal.neutral_quoted hascii) hending, htrimmed.ne_nil⟩
  refine ⟨hfields, ?_⟩
  intro hleast hmost location line
  rw [hfields]
  exact ⟨_, Statement.parse_bytes hlabel hbytes ⟨hleast, hmost⟩ location line, rfl, rfl, rfl⟩

/-- A backslash, a quote, a comment's mark, a blank, a line feed and a NUL, before a comment with a quote in it. -/
theorem awkward_bytes_expressible :
    Literal.quoted [92, 39, 35, 32, 10, 0] = "c'\\\\\\'# \\n\\0'" ∧
    lineFields "L BYTE c'\\\\\\'# \\n\\0' #it's".toList = ["L", "BYTE", "c'\\\\\\'# \\n\\0'"] ∧
    ∃ s, Statement.parse (lineFields "L BYTE c'\\\\\\'# \\n\\0' #it's".toList) 0 1 = .ok s ∧
      s.payload = .bytes [92, 39, 35, 32, 10, 0] ∧ s.size = 6 := by
  have hquoted : Literal.quoted [92, 39, 35, 32, 10, 0] = "c'\\\\\\'# \\n\\0'" := by decide +kernel
  obtain ⟨-, hlines⟩ := bytes_expressible [92, 39, 35, 32, 10, 0] (by simp)
  obtain ⟨hfields, hparse⟩ := hlines "L" " #it's" (by decide) (.inr ⟨"it's", rfl⟩)
  rw [hquoted] at hfields hparse
  obtain ⟨s, hs, -, hpayload, hsize⟩ := hparse (by decide) (by decide) 0 1
  exact ⟨hquoted, hfields, s, hs, hpayload, hsize⟩

end Tribyte
