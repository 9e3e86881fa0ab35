import Tribyte.Proofs.Source.Fields
import Tribyte.Proofs.Source.WellFormed

/-! Quoted literals on a line with a comment.

Two readers look at a quoted literal. The one that looks for the comment takes every quote without a backslash for the
end or the beginning of quoted text; the one that reads the literal takes only its last quote for the end. They agree
on a text exactly if the first comes out of it where it went in (`Neutral`), and `quoted_literal_before_comment` says
that the literal is then the whole operand. Quotes that stand behind backslashes are enough for that
(`Literal.neutral_of_quotesEscaped`); without them part of the literal can be lost, or the comment be taken in. -/
namespace Tribyte

open Text

theorem Text.dropSuffix?_eq_some_iff {ending cs front : List Char} :
    dropSuffix? ending cs = some front ↔ cs = front ++ ending := by
  unfold dropSuffix?
  constructor
  · intro h
    split at h
    · rename_i hsuffix
      obtain ⟨front', rfl⟩ := List.isSuffixOf_iff_suffix.mp hsuffix
      simpa using h
    · cases h
  · intro h
    subst h
    simp

theorem Text.Hexadecimal.all_isDigit_of_read? {count n : Nat} {cs : List Char} (h : read? count cs = some n) :
    cs.all isDigit := by
  unfold read? at h
  split at h
  · rename_i hdigits
    exact hdigits.2
  · cases h

/-! ### Words of a line -/

/-- Digits, letters and what stands between them end no field and begin neither a comment nor a quotation. -/
theorem visible_of_range {c : Char} (hlow : 48 ≤ c.toNat) (hhigh : c.toNat ≤ 126) :
    isBlank c = false ∧ c ≠ '#' ∧ c ≠ '\'' := by
  refine ⟨isBlank_of_visible (by omega) hhigh, ?_, ?_⟩
  · intro h
    subst h
    exact absurd hlow (by decide)
  · intro h
    subst h
    exact absurd hlow (by decide)

theorem isSymbol_visible {s : String} (h : isSymbol s) {c : Char} (hc : c ∈ s.toList) :
    isBlank c = false ∧ c ≠ '#' ∧ c ≠ '\'' := by
  have hrange := toNat_of_upper_or_digit (mem_symbol h hc)
  exact visible_of_range hrange.1 (by omega)

theorem isWord_of_isSymbol {s : String} (h : isSymbol s) : IsWord s.toList := by
  refine ⟨?_, fun c hc => (isSymbol_visible h hc).1⟩
  intro hnil
  rw [isSymbol, hnil] at h
  cases h

theorem neutral_of_isSymbol {s : String} (h : isSymbol s) : Neutral s.toList :=
  neutral_of_forall fun _ hc => (isSymbol_visible h hc).2

/-- Behind a label and a name, the operand is what the comment leaves. -/
theorem lineFields_symbols {label name operand : String} (hlabel : isSymbol label) (hname : isSymbol name)
    (rest : List Char) :
    lineFields (label.toList ++ ' ' :: (name.toList ++ ' ' :: rest)) = [label, name, operand] ↔
      trim (stripComment .outside rest) = operand.toList ∧ operand.toList ≠ [] := by
  rw [lineFields_words (isWord_of_isSymbol hlabel) (isWord_of_isSymbol hname) (neutral_of_isSymbol hlabel)
    (neutral_of_isSymbol hname)]
  split
  · rename_i hnil
    rw [hnil]
    constructor
    · intro h
      simp at h
    · intro h
      exact absurd h.1.symm h.2
  · rename_i hne
    constructor
    · intro h
      obtain rfl : String.ofList (trim (stripComment .outside rest)) = operand := by simpa using h
      simpa using hne
    · intro h
      simp [h.1]

/-- A label, a name and an operand, spaced in any way. -/
theorem Spacing.lineFields_labelled (s : Spacing) {label name operand : String} (hlabel : isSymbol label)
    (hname : isSymbol name) (htrimmed : IsTrimmed operand.toList) (hneutral : Neutral operand.toList) :
    lineFields (s.write [label.toList, name.toList, operand.toList]) = [label, name, operand] := by
  have hfields : AreFields [label.toList, name.toList, operand.toList] :=
    ⟨isWord_of_isSymbol hlabel, isWord_of_isSymbol hname, htrimmed⟩
  rw [s.lineFields_write hfields]
  · simp
  · simp [neutral_of_isSymbol hlabel, neutral_of_isSymbol hname, hneutral]

/-! ### Literals and the scan for a comment -/

namespace Literal

theorem bytes_eq_ok {text : String} {bs : List UInt8} (h : bytes text = .ok bs) :
    (∃ hex, text.toList = '0' :: 'x' :: hex ∧ hex.all Hexadecimal.isDigit) ∨
      ∃ body, text.toList = 'c' :: '\'' :: (body ++ ['\'']) ∧ unescape text body = .ok bs := by
  unfold bytes at h
  split at h
  · rename_i hex htext
    split at h
    · rename_i hread
      exact .inl ⟨hex, htext, Hexadecimal.all_isDigit_of_read? hread⟩
    · cases h
  · rename_i htext
    split at h
    · rename_i body hbody
      exact .inr ⟨body, dropSuffix?_eq_some_iff.mp hbody ▸ htext, h⟩
    · cases h
  · cases h

theorem isDigit_visible {c : Char} (h : Hexadecimal.isDigit c) : isBlank c = false ∧ c ≠ '#' ∧ c ≠ '\'' := by
  have hrange : 48 ≤ c.toNat ∧ c.toNat ≤ 102 := by
    simp only [Hexadecimal.isDigit, Bool.or_eq_true, Bool.and_eq_true, decide_eq_true_eq, Char.le_def,
      UInt32.le_iff_toNat_le] at h
    rcases h with (h | h) | h
    · have := toNat_of_isDigit h
      omega
    · have : 97 ≤ c.toNat ∧ c.toNat ≤ 102 := h
      omega
    · have : 65 ≤ c.toNat ∧ c.toNat ≤ 70 := h
      omega
  exact visible_of_range hrange.1 (by omega)

theorem marked_solid {hex : List Char} (h : hex.all Hexadecimal.isDigit) :
    ∀ c ∈ '0' :: 'x' :: hex, isBlank c = false := by
  refine List.forall_mem_cons.mpr ⟨by decide, List.forall_mem_cons.mpr ⟨by decide, ?_⟩⟩
  exact fun c hc => (isDigit_visible (List.all_eq_true.mp h c hc)).1

theorem bytes_isTrimmed {text : String} {bs : List UInt8} (h : bytes text = .ok bs) : IsTrimmed text.toList := by
  rcases bytes_eq_ok h with ⟨hex, htext, hdigits⟩ | ⟨body, htext, -⟩
  · rw [htext]
    exact IsWord.isTrimmed ⟨List.cons_ne_nil _ _, marked_solid hdigits⟩
  · rw [htext]
    refine ⟨List.cons_ne_nil _ _, ?_, ?_⟩
    · intro c hc
      cases Option.mem_some.mp hc
      rfl
    · intro c hc
      have hlast : ('c' :: '\'' :: (body ++ ['\''])).getLast? = some '\'' := by
        rw [← List.cons_append, ← List.cons_append, List.getLast?_concat]
      cases Option.mem_some.mp (hlast ▸ hc)
      rfl

/-- Every quote stands behind a backslash. -/
def quotesEscaped : List Char → Bool
  | [] => true
  | '\\' :: _ :: rest => quotesEscaped rest
  | c :: rest => c != '\'' && quotesEscaped rest

theorem unescape_cons (text : String) {c : Char} (hc : c ≠ '\\') (rest : List Char) :
    unescape text (c :: rest) =
      if c.toNat < 128 then (unescape text rest).map (c.toNat.toUInt8 :: ·) else .error (.notAscii c text) := by
  rw [unescape]
  · exact fun h => absurd h hc
  · exact fun _ _ h => absurd h hc

theorem unescape_escape_eq_ok {text : String} {c : Char} {rest : List Char} {bs : List UInt8}
    (h : unescape text ('\\' :: c :: rest) = .ok bs) : ∃ bs', unescape text rest = .ok bs' := by
  rw [unescape] at h
  split at h
  · obtain ⟨bs', hrest, -⟩ := Checked.map_eq_ok_iff.mp h
    exact ⟨bs', hrest⟩
  · cases h

theorem unescape_cons_eq_ok {text : String} {c : Char} {rest : List Char} {bs : List UInt8} (hc : c ≠ '\\')
    (h : unescape text (c :: rest) = .ok bs) : ∃ bs', unescape text rest = .ok bs' := by
  rw [unescape_cons text hc] at h
  split at h
  · obtain ⟨bs', hrest, -⟩ := Checked.map_eq_ok_iff.mp h
    exact ⟨bs', hrest⟩
  · cases h

/-- A scan that enters quoted text inside quotes stays inside, where its quotes are escaped. -/
theorem inside_of_quotesEscaped {text : String} {body : List Char} {bs : List UInt8}
    (hbody : unescape text body = .ok bs) (h : quotesEscaped body) :
    Clear .inside body ∧ Quoting.inside.after body = .inside := by
  fun_induction quotesEscaped body generalizing bs with
  | case1 => exact ⟨clear_nil _, rfl⟩
  | case2 c rest ih =>
    obtain ⟨bs', hrest⟩ := unescape_escape_eq_ok hbody
    obtain ⟨hclear, hafter⟩ := ih hrest h
    have hpair : Clear .inside ['\\', c] := by simp [Clear, stripComment, Quoting.next]
    exact ⟨clear_append_iff.mpr ⟨hpair, hclear⟩, hafter⟩
  | case3 c rest hc ih =>
    obtain ⟨hquote, h⟩ := Bool.and_eq_true_iff.mp h
    -- A backslash here would be the last character, and protect nothing.
    have hbackslash : c ≠ '\\' := by
      intro h
      subst h
      cases rest with
      | nil => cases hbody
      | cons d rest => exact hc d rest rfl rfl
    have hnext : Quoting.inside.next c = .inside := by
      rw [Quoting.next, if_neg hbackslash, if_neg (bne_iff_ne.mp hquote)]
    obtain ⟨bs', hrest⟩ := unescape_cons_eq_ok hbackslash hbody
    obtain ⟨hclear, hafter⟩ := ih hrest h
    refine ⟨clear_cons_iff.mpr ⟨fun h => Quoting.noConfusion h.1, hnext.symm ▸ hclear⟩, ?_⟩
    rw [Quoting.after, List.foldl_cons, hnext]
    exact hafter

theorem neutral_of_quotesEscaped {text : String} {bs : List UInt8} (h : bytes text = .ok bs)
    (hquotes : ∀ body, text.toList = 'c' :: '\'' :: (body ++ ['\'']) → quotesEscaped body) : Neutral text.toList := by
  rcases bytes_eq_ok h with ⟨hex, htext, hdigits⟩ | ⟨body, htext, hbody⟩
  · have hmark : Neutral ['0', 'x'] := by decide
    rw [htext]
    exact hmark.append (neutral_of_forall fun c hc => (isDigit_visible (List.all_eq_true.mp hdigits c hc)).2)
  · obtain ⟨hclear, hafter⟩ := inside_of_quotesEscaped hbody (hquotes body htext)
    have hopen : Clear .outside ['c', '\''] := by decide
    have hclose : Clear .inside ['\''] := by decide
    rw [htext]
    refine ⟨clear_append_iff.mpr ⟨hopen, clear_append_iff.mpr ⟨hclear, hafter.symm ▸ hclose⟩⟩, ?_⟩
    have hinside : Quoting.outside.after ('c' :: '\'' :: (body ++ ['\''])) = Quoting.inside.after (body ++ ['\'']) := rfl
    rw [hinside, Quoting.after_append, hafter]
    rfl

end Literal

theorem length_stripComment_append {q : Quoting} {a : List Char} (h : ¬Clear q a) (b : List Char) :
    (stripComment q (a ++ b)).length < a.length := by
  induction a generalizing q with
  | nil => exact absurd (clear_nil q) h
  | cons c rest ih =>
    rw [List.cons_append, stripComment]
    split
    · exact Nat.zero_lt_succ _
    · rename_i hc
      exact Nat.succ_lt_succ (ih fun hrest => h (clear_cons_iff.mpr ⟨hc, hrest⟩))

theorem length_trim_le (cs : List Char) : (trim cs).length ≤ cs.length := by
  obtain ⟨lead, trail, -, -, hcs, -⟩ := exists_trim cs
  have := congrArg List.length hcs
  simp only [List.length_append] at this
  omega

/-- Blanks cannot be moved from behind a text to its front. -/
theorem IsTrimmed.append_cancel {cs lead trail more : List Char} (h : IsTrimmed cs) (hlead : Blank lead)
    (heq : cs ++ more = lead ++ cs ++ trail) : more = trail := by
  have hhead (more : List Char) : ∀ c ∈ (cs ++ more).head?, isBlank c = false := by
    rw [List.head?_append_of_ne_nil _ h.ne_nil]
    exact h.head
  have hstart := congrArg trimStart heq
  rw [List.append_assoc, trimStart, dropWhile_of_head? (hhead _), trimStart_blank_append hlead (hhead _)] at hstart
  exact List.append_cancel_left hstart

/-- Inside quotes a comment's mark is text. -/
theorem exists_stripComment_mark {q : Quoting} (h : q ≠ .outside) (comment : List Char) :
    ∃ rest, stripComment q (' ' :: '#' :: comment) = ' ' :: '#' :: rest := by
  have hblank := q.next_blank (c := ' ') rfl
  have hreleased := mt Quoting.released_eq_outside.mp h
  refine ⟨stripComment (q.released.next '#') comment, ?_⟩
  rw [stripComment, if_neg (h ·.1), hblank, stripComment, if_neg (hreleased ·.1)]

/-- A comment behind a text is found exactly if the scan for it comes out of the text outside quotes. -/
theorem trim_stripComment_comment {cs : List Char} (h : IsTrimmed cs) (comment : List Char) :
    trim (stripComment .outside (cs ++ ' ' :: '#' :: comment)) = cs ↔ Neutral cs := by
  constructor
  · intro hkept
    have hclear : Clear .outside cs := by
      by_contra hclear
      have := length_stripComment_append hclear (' ' :: '#' :: comment)
      have := length_trim_le (stripComment .outside (cs ++ ' ' :: '#' :: comment))
      rw [hkept] at this
      omega
    refine ⟨hclear, ?_⟩
    by_contra hopen
    -- The mark stands inside quotes then, and is kept with the text.
    obtain ⟨rest, hrest⟩ := exists_stripComment_mark hopen comment
    obtain ⟨lead, trail, hlead, htrail, hsplit, -⟩ := exists_trim (stripComment .outside (cs ++ ' ' :: '#' :: comment))
    rw [hkept, stripComment_append hclear, hrest] at hsplit
    have hmark := htrail '#' (h.append_cancel hlead hsplit ▸ by simp)
    exact absurd hmark (by decide)
  · intro hneutral
    have hcomment : stripComment .outside (' ' :: '#' :: comment) = [' '] := by
      simp [stripComment, Quoting.next]
    have htrail : Blank [' '] := by decide
    rw [stripComment_append hneutral.1, hneutral.2, hcomment]
    show trim ([] ++ cs ++ [' ']) = cs
    exact trim_eq (by decide) (.inr h) htrail

/-- A statement of bytes before a comment: its operand is the literal exactly if the scan for the comment comes out of
the literal outside quotes, and then the statement holds the bytes of the literal. It does where quotes are escaped. -/
theorem quoted_literal_before_comment {label text : String} {bs : List UInt8} (hlabel : isLabel label)
    (hbytes : Literal.bytes text = .ok bs) (hcount : 1 ≤ bs.length ∧ bs.length ≤ blockSize) (comment : String) :
    (lineFields (label ++ " BYTE " ++ text ++ " #" ++ comment).toList = [label, "BYTE", text] ↔ Neutral text.toList) ∧
    (Neutral text.toList → ∀ location line,
      Statement.parse (lineFields (label ++ " BYTE " ++ text ++ " #" ++ comment).toList) location line = .ok {
        mnemonic := "BYTE"
        operation := .directive .byte
        location
        line
        label := some label
        operand := some text
        payload := .bytes bs }) ∧
    ((∀ body, text.toList = 'c' :: '\'' :: (body ++ ['\'']) → Literal.quotesEscaped body) → Neutral text.toList) := by
  have htrimmed := Literal.bytes_isTrimmed hbytes
  have hline : (label ++ " BYTE " ++ text ++ " #" ++ comment).toList =
      label.toList ++ ' ' :: ("BYTE".toList ++ ' ' :: (text.toList ++ ' ' :: '#' :: comment.toList)) := by
    simp
  have hfields : lineFields (label ++ " BYTE " ++ text ++ " #" ++ comment).toList = [label, "BYTE", text] ↔
      Neutral text.toList := by
    rw [hline, lineFields_symbols (isSymbol_of_isLabel hlabel) (by decide), and_iff_left htrimmed.ne_nil,
      trim_stripComment_comment htrimmed]
  refine ⟨hfields, ?_, Literal.neutral_of_quotesEscaped hbytes⟩
  intro hneutral location line
  rw [hfields.mpr hneutral]
  refine Statement.parse_eq_ok_iff.mpr
    ⟨⟨some label, "BYTE", some text, .directive .byte⟩, .bytes bs, rfl, if_pos hlabel, ?_, rfl⟩
  refine Checked.bind_eq_ok_iff.mpr ⟨text, rfl, ?_⟩
  rw [hbytes]
  exact if_pos hcount

/-- A quote without a backslash: what follows it is taken for a comment, and two of three bytes are lost. Behind a
backslash it is harmless. -/
theorem bare_quote_cuts_literal :
    Literal.bytes "c'#'#'" = .ok [35, 39, 35] ∧
    lineFields "L BYTE c'#'#' #C".toList ≠ ["L", "BYTE", "c'#'#'"] ∧
    (Statement.parse (lineFields "L BYTE c'#'#' #C".toList) 0 1).map Statement.payload = .ok (.bytes [35]) ∧
    lineFields "L BYTE c'#\\'#' #C".toList = ["L", "BYTE", "c'#\\'#'"] ∧
    (Statement.parse (lineFields "L BYTE c'#\\'#' #C".toList) 0 1).map Statement.payload = .ok (.bytes [35, 39, 35]) := by
  have hlabel : isLabel "L" := by decide
  have hbare : Literal.bytes "c'#'#'" = .ok [35, 39, 35] := by decide +kernel
  have hescaped : Literal.bytes "c'#\\'#'" = .ok [35, 39, 35] := by decide +kernel
  have hneutral : Neutral "c'#\\'#'".toList := by decide +kernel
  obtain ⟨hcut, -⟩ := quoted_literal_before_comment hlabel hbare (by decide) "C"
  obtain ⟨hfields, hparse, -⟩ := quoted_literal_before_comment hlabel hescaped (by decide) "C"
  refine ⟨hbare, fun h => absurd (hcut.mp h) (by decide +kernel), by decide +kernel, hfields.mpr hneutral, ?_⟩
  exact congrArg (Except.map Statement.payload) (hparse hneutral 0 1)

end Tribyte
