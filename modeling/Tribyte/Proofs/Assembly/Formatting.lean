import Mathlib.Logic.Relation
import Tribyte.Proofs.Assembly.Numbering
import Tribyte.Proofs.Source.Fields

/-! The layout of a source text does not matter to assembly.

A line may be spaced differently or get a comment (`LineEdit`), and lines that hold no field may come in anywhere
(`Reformatted`). Fields are kept by the one and not added to by the other, so that only line numbers change, and these
come out in errors only (`formatting_keeps_assembly`). -/
namespace Tribyte

open Text

/-! ### Lines -/

/-- The quotes of the line are closed where it ends or its comment begins. -/
def Balanced (line : List Char) : Prop := Quoting.outside.after (stripComment .outside line) = .outside

instance (line : List Char) : Decidable (Balanced line) :=
  inferInstanceAs (Decidable (Quoting.outside.after (stripComment .outside line) = .outside))

/-- Nothing but blanks and a comment. -/
def Fieldless (line : List Char) : Prop :=
  ∃ blanks comment, Blank blanks ∧ (comment = [] ∨ ∃ text, comment = '#' :: text) ∧ line = blanks ++ comment

/-- One change to the layout of a line. -/
inductive LineEdit : List Char → List Char → Prop
  /-- Other blanks around and between the fields. -/
  | respace {s : Spacing} {fields : List (List Char)} {comment : List Char} (h : Typeset s fields comment) (s' : Spacing) :
      LineEdit (s.write fields ++ comment) (s'.write fields ++ comment)
  | comment {line : List Char} (h : Balanced line) (text : List Char) : LineEdit line (line ++ '#' :: text)

theorem stripComment_comment {line : List Char} (h : Balanced line) (text : List Char) :
    stripComment .outside (line ++ '#' :: text) = stripComment .outside line := by
  obtain ⟨comment, hline, hclear, hends⟩ := stripComment_split .outside line
  have hcomment : stripComment .outside (comment ++ '#' :: text) = [] := by
    rw [h] at hends
    rcases stripComment_eq_nil_iff.mp hends with rfl | ⟨-, _, rfl⟩ <;> rfl
  conv => lhs; rw [hline]
  rw [List.append_assoc, stripComment_append hclear, h, hcomment, List.append_nil]

theorem LineEdit.lineFields_eq {line line' : List Char} (h : LineEdit line line') : lineFields line' = lineFields line := by
  cases h with
  | respace h s' => rw [(h.respace s').lineFields_eq, h.lineFields_eq]
  | comment h text => rw [lineFields, stripComment_comment h, lineFields]

theorem Fieldless.lineFields_eq {line : List Char} (h : Fieldless line) : lineFields line = [] := by
  obtain ⟨blanks, comment, hblanks, hcomment, rfl⟩ := h
  have houtside : Quoting.outside.after blanks = .outside := by
    rw [← Quoting.released_eq_outside, Quoting.after_blank_released _ hblanks]
    rfl
  have hends := stripComment_eq_nil_iff.mpr (hcomment.imp_right (⟨rfl, ·⟩))
  have hstrip : stripComment .outside (blanks ++ comment) = blanks ++ [] ++ [] := by
    simp [stripComment_append (clear_blank _ hblanks), houtside, hends]
  rw [lineFields, hstrip, trim_eq hblanks (.inl rfl) (by decide)]
  rfl

/-! ### Texts -/

/-- The text of some lines. -/
def textOf (lines : List (List Char)) : String := String.ofList (['\n'].intercalate lines)

/-- The lines with fields, where the first line has number `n`. -/
def numberedLines : (n : Nat) → List (List Char) → List SourceLine
  | _, [] => []
  | n, line :: rest =>
    if lineFields line = [] then numberedLines (n + 1) rest else ⟨n, lineFields line⟩ :: numberedLines (n + 1) rest

theorem sourceLines_eq (text : String) : sourceLines text = numberedLines 1 (textLines text) := by
  suffices ∀ n (lines : List (List Char)), ((lines.zipIdx n).filterMap fun p =>
      if lineFields p.1 = [] then none else some ⟨p.2 + 1, lineFields p.1⟩) = numberedLines (n + 1) lines from
    this 0 (textLines text)
  intro n lines
  induction lines generalizing n with
  | nil => rfl
  | cons line rest ih =>
    rw [List.zipIdx_cons, List.filterMap_cons, numberedLines, ← ih]
    by_cases hfields : lineFields line = [] <;> simp [hfields]

theorem pieces_eq_splitOn (cs : List Char) : pieces cs = cs.splitOn '\n' := by
  induction cs with
  | nil => rfl
  | cons c rest ih =>
    obtain ⟨piece, more, hsplit⟩ := List.exists_cons_of_ne_nil (List.splitOn_ne_nil '\n' rest)
    have hrest : pieces rest = piece :: more := ih.trans hsplit
    have hstep : pieces (c :: rest) = if c = '\n' then [] :: piece :: more else (c :: piece) :: more := by
      unfold pieces at hrest ⊢
      rw [List.foldr_cons, hrest]
    rw [hstep, List.splitOn, List.splitOnP_cons_eq_if_modifyHead, ← List.splitOn, hsplit]
    by_cases hc : c = '\n' <;> simp [hc]

theorem numberedLines_closeLines (n : Nat) (lines : List (List Char)) :
    numberedLines n (closeLines lines) = numberedLines n lines := by
  have hreturn (line : List Char) :
      lineFields (if line.getLast? = some '\r' then line.dropLast else line) = lineFields line := by
    split
    · rename_i hlast
      obtain ⟨front, rfl⟩ := List.getLast?_eq_some_iff.mp hlast
      rw [List.dropLast_concat, lineFields_append_blank front (by decide)]
    · rfl
  fun_induction closeLines lines generalizing n with
  | case1 => rfl
  | case2 => rfl
  | case3 => rfl
  | case4 line rest _ ih => rw [numberedLines, numberedLines, hreturn, ih]

theorem sourceLines_textOf {lines : List (List Char)} (h : ∀ line ∈ lines, '\n' ∉ line) :
    sourceLines (textOf lines) = numberedLines 1 lines := by
  rw [sourceLines_eq, ← numberedLines_closeLines 1 lines, textLines, textOf, String.toList_ofList, pieces_eq_splitOn]
  by_cases hne : lines = []
  · rw [hne]
    rfl
  · rw [List.splitOn_intercalate '\n' h hne]

/-! ### Reformatting -/

/-- `lines'`, whose first line has number `n'`, are `lines`, whose first line has number `n`, with lines put in and
edited; `f` gives the new number of each line. -/
inductive Reformatted (f : Nat → Nat) : (n n' : Nat) → (lines lines' : List (List Char)) → Prop
  | nil {n n' : Nat} : Reformatted f n n' [] []
  | insert {n n' : Nat} {lines lines' : List (List Char)} {line : List Char} (h : Fieldless line)
      (hrest : Reformatted f n (n' + 1) lines lines') : Reformatted f n n' lines (line :: lines')
  | edit {n n' : Nat} {lines lines' : List (List Char)} {line line' : List Char}
      (h : Relation.ReflTransGen LineEdit line line') (hnumber : f n = n')
      (hrest : Reformatted f (n + 1) (n' + 1) lines lines') : Reformatted f n n' (line :: lines) (line' :: lines')

theorem Reformatted.numberedLines_eq {f : Nat → Nat} {n n' : Nat} {lines lines' : List (List Char)}
    (h : Reformatted f n n' lines lines') :
    numberedLines n' lines' = (numberedLines n lines).map (SourceLine.renumber f) := by
  induction h with
  | nil => rfl
  | insert h _ ih => rw [numberedLines, if_pos h.lineFields_eq, ih]
  | @edit n n' lines lines' line line' h hnumber _ ih =>
    have hfields : lineFields line' = lineFields line := by
      induction h with
      | refl => rfl
      | tail _ hlast hfront => rw [hlast.lineFields_eq, hfront]
    rw [numberedLines, numberedLines, hfields, ih]
    split
    · rfl
    · rw [← hnumber]
      rfl

/-- Lines without fields put in, fields spaced differently and comments at the end of balanced lines: assembly gives
the same records, or the same error with the new numbers of the lines it names. Any line can be read again from its
fields. -/
theorem formatting_keeps_assembly {f : Nat → Nat} {lines lines' : List (List Char)}
    (h : Reformatted f 1 1 lines lines') (hlines : ∀ line ∈ lines, '\n' ∉ line)
    (hlines' : ∀ line ∈ lines', '\n' ∉ line) :
    assemble (textOf lines') = (assemble (textOf lines)).mapError (SourceError.renumber f) ∧
    ∀ line, lineFields (" ".intercalate (lineFields line)).toList = lineFields line := by
  refine ⟨assemble_renumber ?_, lineFields_intercalate⟩
  rw [sourceLines_textOf hlines, sourceLines_textOf hlines', h.numberedLines_eq]

/-- Two lines put in, a comment with a quote in it, and other blanks in front of a literal that holds `#`: the error
names the new numbers of both lines. -/
theorem duplicate_label_renumbered :
    assemble (textOf ["P START 0000".toList, "A NOP".toList, "A BYTE c'# '".toList, " END".toList]) =
      .error (.duplicateLabel 3 "A" 2) ∧
    assemble (textOf ["# it's a comment".toList, "P START 0000".toList, "\t ".toList, "A NOP#'".toList,
        " A\tBYTE  c'# ' ".toList, " END".toList]) =
      .error (.duplicateLabel 5 "A" 4) := by
  have hassemble : assemble (textOf ["P START 0000".toList, "A NOP".toList, "A BYTE c'# '".toList, " END".toList]) =
      .error (.duplicateLabel 3 "A" 2) := by
    decide +kernel
  have hcomment : LineEdit "A NOP".toList "A NOP#'".toList := LineEdit.comment (by decide) "'".toList
  have hrespace : LineEdit "A BYTE c'# '".toList " A\tBYTE  c'# ' ".toList := by
    let wide : Spacing :=
      ⟨[' '], ['\t'], [' ', ' '], [' '], by decide, by decide, by decide, by decide, by decide, by decide⟩
    have htypeset : Typeset .single ["A".toList, "BYTE".toList, "c'# '".toList] [] := by
      refine ⟨⟨?_, ?_, ?_⟩, ?_, ?_⟩ <;> decide
    exact LineEdit.respace htypeset wide
  have hreformatted : Reformatted (fun n => if n = 1 then 2 else n + 2) 1 1
      ["P START 0000".toList, "A NOP".toList, "A BYTE c'# '".toList, " END".toList]
      ["# it's a comment".toList, "P START 0000".toList, "\t ".toList, "A NOP#'".toList,
        " A\tBYTE  c'# ' ".toList, " END".toList] := by
    refine .insert ⟨[], _, by decide, .inr ⟨" it's a comment".toList, rfl⟩, rfl⟩ (.edit .refl rfl ?_)
    refine .insert ⟨"\t ".toList, [], by decide, .inl rfl, rfl⟩ (.edit (.single hcomment) rfl ?_)
    exact .edit (.single hrespace) rfl (.edit .refl rfl .nil)
  have h := (formatting_keeps_assembly hreformatted (by decide) (by decide)).1
  rw [hassemble] at h
  exact ⟨hassemble, h⟩

end Tribyte
