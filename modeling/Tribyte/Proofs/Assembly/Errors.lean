import Mathlib.Data.List.Pairwise
import Tribyte.Proofs.Assembly.Acceptance
import Tribyte.Proofs.Assembly.Formatting
import Tribyte.Proofs.Source.Literals

/-! Errors and the lines they name.

A layout stops at the first line that it cannot take in, so what comes behind that line does not change its error
(`foldlM_append_of_error`). Every error carries the number of the line that it is about: that of the line just read
(`Layout.extend_eq_error`), or of the statement that the records fail at (`Layout.records_eq_error`). Only a text with
too few statements has no line to name (`errors_located`). -/
namespace Tribyte

/-! ### Numbers of lines -/

/-- Line `n` of a text, counted from 1, has these fields, and has some. -/
def LineOf (text : String) (n : Nat) (fields : List String) : Prop :=
  ∃ line, 0 < n ∧ (textLines text)[n - 1]? = some line ∧ lineFields line = fields ∧ fields ≠ []

theorem mem_numberedLines {n : Nat} {lines : List (List Char)} {l : SourceLine} :
    l ∈ numberedLines n lines ↔
      ∃ i line, lines[i]? = some line ∧ lineFields line ≠ [] ∧ l = ⟨n + i, lineFields line⟩ := by
  induction lines generalizing n with
  | nil => simp [numberedLines]
  | cons first rest ih =>
    have hrest : l ∈ numberedLines (n + 1) rest ↔
        ∃ i line, (first :: rest)[i + 1]? = some line ∧ lineFields line ≠ [] ∧ l = ⟨n + (i + 1), lineFields line⟩ := by
      simp only [ih, List.getElem?_cons_succ, Nat.add_assoc, Nat.add_comm 1]
    rw [numberedLines]
    constructor
    · intro h
      split at h
      · obtain ⟨i, line, h⟩ := hrest.mp h
        exact ⟨i + 1, line, h⟩
      · rcases List.mem_cons.mp h with rfl | h
        · exact ⟨0, first, rfl, ‹_›, rfl⟩
        · obtain ⟨i, line, h⟩ := hrest.mp h
          exact ⟨i + 1, line, h⟩
    · rintro ⟨i, line, hline, hfields, rfl⟩
      cases i with
      | zero =>
        cases hline
        rw [if_neg hfields]
        exact List.mem_cons_self ..
      | succ i =>
        have hmem := hrest.mpr ⟨i, line, hline, hfields, rfl⟩
        split
        · exact hmem
        · exact List.mem_cons_of_mem _ hmem

theorem mem_sourceLines {text : String} {l : SourceLine} : l ∈ sourceLines text ↔ LineOf text l.number l.fields := by
  rw [sourceLines_eq, mem_numberedLines]
  constructor
  · rintro ⟨i, line, hline, hfields, rfl⟩
    refine ⟨line, Nat.add_pos_left Nat.one_pos i, ?_, rfl, hfields⟩
    rwa [Nat.add_sub_cancel_left]
  · rintro ⟨line, hpositive, hline, hfields, hne⟩
    refine ⟨l.number - 1, line, hline, hfields ▸ hne, ?_⟩
    rw [hfields, Nat.add_sub_cancel' hpositive]

/-- Lines come in the order of their numbers. -/
theorem pairwise_numberedLines (n : Nat) (lines : List (List Char)) :
    (numberedLines n lines).Pairwise fun k l => k.number < l.number := by
  induction lines generalizing n with
  | nil => exact .nil
  | cons line rest ih =>
    rw [numberedLines]
    split
    · exact ih (n + 1)
    · refine List.pairwise_cons.mpr ⟨?_, ih (n + 1)⟩
      intro l hl
      obtain ⟨i, _, -, -, rfl⟩ := mem_numberedLines.mp hl
      show n < n + 1 + i
      omega

theorem pairwise_sourceLines (text : String) : (sourceLines text).Pairwise fun k l => k.number < l.number := by
  rw [sourceLines_eq]
  exact pairwise_numberedLines 1 (textLines text)

/-! ### More lines -/

theorem numberedLines_append (n : Nat) (front back : List (List Char)) :
    numberedLines n (front ++ back) = numberedLines n front ++ numberedLines (n + front.length) back := by
  induction front generalizing n with
  | nil => rfl
  | cons line rest ih =>
    rw [List.cons_append, numberedLines, numberedLines, ih, List.length_cons, Nat.add_assoc, Nat.add_comm 1]
    split <;> rfl

theorem pieces_lineFeed (front back : List Char) : pieces (front ++ '\n' :: back) = pieces front ++ pieces back := by
  induction front with
  | nil => rfl
  | cons c rest ih =>
    obtain ⟨piece, more, hrest⟩ := List.exists_cons_of_ne_nil (pieces_eq_splitOn rest ▸ List.splitOn_ne_nil '\n' rest)
    unfold pieces at ih hrest ⊢
    rw [List.cons_append, List.foldr_cons, List.foldr_cons, ih, hrest]
    split <;> rfl

/-- A line feed ends a line, and what follows it are further lines. -/
theorem exists_sourceLines_append (text more : String) :
    ∃ lines, sourceLines (text ++ "\n" ++ more) = sourceLines text ++ lines := by
  have hpieces (text : String) : sourceLines text = numberedLines 1 (pieces text.toList) := by
    rw [sourceLines_eq, textLines, numberedLines_closeLines]
  have hfeed : "\n".toList = ['\n'] := by decide
  refine ⟨numberedLines (1 + (pieces text.toList).length) (pieces more.toList), ?_⟩
  rw [hpieces, hpieces, String.toList_append, String.toList_append, hfeed, List.append_assoc, List.singleton_append,
    pieces_lineFeed, numberedLines_append]

theorem sourceLines_lineFeed (text : String) : sourceLines (text ++ "\n") = sourceLines text := by
  rw [sourceLines_eq, sourceLines_eq, textLines, textLines, numberedLines_closeLines, numberedLines_closeLines,
    String.toList_append]
  show numberedLines 1 (pieces (text.toList ++ '\n' :: [])) = _
  rw [pieces_lineFeed, numberedLines_append]
  exact List.append_nil _

/-! ### Errors of a line -/

/-- Errors of a line that is no statement, or whose statement does not fit behind the others. -/
inductive SourceError.Rejects (n : Nat) : SourceError → Prop
  | shape {fields : List String} : Rejects n (.shape n fields)
  | unknownOperation {name : String} : Rejects n (.unknownOperation n name)
  | invalidLabel {label : String} : Rejects n (.invalidLabel n label)
  | operand {mnemonic : String} {fault : OperandFault} : Rejects n (.operand n mnemonic fault)

theorem SourceError.Rejects.line?_eq {n : Nat} {e : SourceError} (h : e.Rejects n) : e.line? = some n := by
  cases h <;> rfl

theorem Parts.named_eq_error {n : Nat} {label operand : Option String} {name : String} {e : SourceError}
    (h : named n label name operand = .error e) : e.Rejects n := by
  unfold named at h
  split at h
  · cases h
  · cases h
    exact .unknownOperation

theorem Parts.ofFields_eq_error {n : Nat} {fields : List String} {e : SourceError} (h : ofFields n fields = .error e) :
    e.Rejects n := by
  unfold ofFields at h
  split at h
  · exact named_eq_error h
  · split at h
    · cases h
    · exact named_eq_error h
  · exact named_eq_error h
  · cases h
    exact .shape

theorem checkLabel_eq_error {n : Nat} {label : Option String} {e : SourceError} (h : checkLabel n label = .error e) :
    e.Rejects n := by
  unfold checkLabel at h
  split at h
  · cases h
  · split at h
    · cases h
    · cases h
      exact .invalidLabel

theorem Statement.parse_eq_error {fields : List String} {location n : Nat} {e : SourceError}
    (h : Statement.parse fields location n = .error e) : e.Rejects n := by
  unfold parse at h
  rcases Checked.bind_eq_error_iff.mp h with h | ⟨parts, -, h⟩
  · exact Parts.ofFields_eq_error h
  rcases Checked.bind_eq_error_iff.mp h with h | ⟨_, -, h⟩
  · exact checkLabel_eq_error h
  split at h
  · cases h
    exact .operand
  · cases h

theorem Statement.parse_line {fields : List String} {location n : Nat} {s : Statement}
    (h : Statement.parse fields location n = .ok s) : s.line = n := by
  obtain ⟨_, _, -, -, -, rfl⟩ := parse_eq_ok_iff.mp h
  rfl

/-- The location counter has no part in a label. -/
theorem Statement.parse_label {fields : List String} {location location' n : Nat} {s t : Statement}
    (hs : Statement.parse fields location n = .ok s) (ht : Statement.parse fields location' n = .ok t) :
    s.label = t.label := by
  obtain ⟨parts, _, hparts, -, -, rfl⟩ := parse_eq_ok_iff.mp hs
  obtain ⟨parts', _, hparts', -, -, rfl⟩ := parse_eq_ok_iff.mp ht
  cases hparts.symm.trans hparts'
  rfl

namespace Layout

theorem advance_eq_error {l : Layout} {s : Statement} {e : SourceError} (h : l.advance s = .error e) :
    e.Rejects s.line := by
  unfold advance at h
  split at h
  · cases h
  · dsimp only at h
    split at h
    · cases h
      exact .operand
    · cases h

theorem defineLabel_eq_error {symbols : SymbolTable} {s : Statement} {e : SourceError}
    (h : defineLabel symbols s = .error e) :
    ∃ label earlier, s.label = some label ∧ symbols.symbol? label = some earlier ∧
      e = .duplicateLabel s.line label earlier.line := by
  unfold defineLabel at h
  split at h
  · cases h
  · rename_i label hlabel
    cases hearlier : symbols.symbol? label with
    | none =>
      simp only [SymbolTable.define_of_none hearlier] at h
      cases h
    | some earlier =>
      simp only [SymbolTable.define_of_some hearlier] at h
      cases h
      exact ⟨label, earlier, hlabel, hearlier, rfl⟩

/-- A line is not taken in because of what it says, or because of a label that is taken. -/
theorem extend_eq_error {l : Layout} {line : SourceLine} {e : SourceError} (h : l.extend line = .error e) :
    e.Rejects line.number ∨
    ∃ s label earlier, Statement.parse line.fields l.counter line.number = .ok s ∧ s.label = some label ∧
      l.symbols.symbol? label = some earlier ∧ e = .duplicateLabel line.number label earlier.line := by
  unfold extend at h
  rcases Checked.bind_eq_error_iff.mp h with h | ⟨s, hparse, h⟩
  · exact .inl (Statement.parse_eq_error h)
  have hline := Statement.parse_line hparse
  rcases Checked.bind_eq_error_iff.mp h with h | ⟨_, -, h⟩
  · exact .inl (hline ▸ advance_eq_error h)
  rcases Checked.bind_eq_error_iff.mp h with h | ⟨_, -, h⟩
  · obtain ⟨label, earlier, hlabel, hearlier, rfl⟩ := defineLabel_eq_error h
    exact .inr ⟨s, label, earlier, hparse, hlabel, hearlier, by rw [hline]⟩
  · cases h

/-- A symbol was defined by a statement on its line. -/
def Indexed (l : Layout) : Prop :=
  ∀ name symbol, l.symbols.symbol? name = some symbol →
    ∃ s ∈ l.statements.toList, s.label = some name ∧ s.line = symbol.line

theorem indexed_extend {l l' : Layout} {line : SourceLine} (hl : l.Indexed) (h : l.extend line = .ok l') :
    l'.Indexed := by
  obtain ⟨s, symbols, -, -, hdefine, rfl⟩ := extend_eq_ok_iff.mp h
  have hold {name : String} {symbol : Symbol} (hsymbol : l.symbols.symbol? name = some symbol) :
      ∃ t ∈ (l.statements.push s).toList, t.label = some name ∧ t.line = symbol.line := by
    obtain ⟨t, ht, hname⟩ := hl name symbol hsymbol
    exact ⟨t, by simp only [Array.toList_push, List.mem_append, ht, true_or], hname⟩
  intro name symbol hsymbol
  rcases defineLabel_eq_ok_iff.mp hdefine with ⟨-, rfl⟩ | ⟨label, hlabel, hdefined⟩
  · exact hold hsymbol
  · rw [(SymbolTable.define_eq_ok hdefined).2] at hsymbol
    split at hsymbol
    · rename_i hname
      cases hsymbol
      exact ⟨s, by simp, hname ▸ hlabel, rfl⟩
    · exact hold hsymbol

theorem indexed_ofLines {lines : List SourceLine} {l : Layout} (h : ofLines lines = .ok l) : l.Indexed :=
  Checked.foldlM_keeps (fun hl h => indexed_extend hl h) (fun _ _ h => by cases h) h

end Layout

/-! ### Errors of the records -/

/-- Errors about a statement that a layout has taken in, with these symbols. -/
inductive Statement.Refused (symbols : SymbolTable) (s : Statement) : SourceError → Prop
  | firstNotStart : Refused symbols s (.firstNotStart s.line)
  | lastNotEnd : Refused symbols s (.lastNotEnd s.line)
  | misplaced : Refused symbols s (.misplaced s.line s.mnemonic)
  | reference {symbol : String} {indexed : Bool} (hpayload : s.payload = .instruction (some symbol) indexed)
      (hsymbol : symbols.address? symbol = none) : Refused symbols s (.undefinedSymbol s.line symbol)
  | entry {symbol : String} (hpayload : s.payload = .finish (some symbol) none)
      (hsymbol : symbols.address? symbol = none) : Refused symbols s (.undefinedSymbol s.line symbol)
  | operand {fault : OperandFault} : Refused symbols s (.operand s.line s.mnemonic fault)
  | noObjectCode : Refused symbols s (.noObjectCode s.line s.mnemonic)

section

variable {symbols : SymbolTable} {s : Statement} {e : SourceError}

theorem Statement.Refused.line?_eq (h : s.Refused symbols e) : e.line? = some s.line := by
  cases h <;> rfl

theorem Statement.objectCode_eq_error (h : s.objectCode symbols = .error e) : s.Refused symbols e := by
  unfold objectCode at h
  split at h
  · cases h
  · rename_i hpayload
    split at h
    · rename_i hsymbol
      cases h
      exact .reference hpayload hsymbol
    · split at h
      · cases h
        exact .operand
      · cases h
  · cases h
  · cases h
  · cases h
    exact .noObjectCode

theorem Statement.entry_eq_error (h : s.entry symbols = .error e) : s.Refused symbols e := by
  unfold entry at h
  split at h
  · rename_i hpayload
    split at h
    · cases h
    · rename_i hsymbol
      split at h
      · cases h
      · cases h
        exact .entry hpayload hsymbol
      · cases h
  · cases h

end

theorem Outline.ofStatements_eq_error {ss : List Statement} {e : SourceError} (h : ofStatements ss = .error e)
    (symbols : SymbolTable) :
    (ss.length < 3 ∧ e = .tooFewStatements ss.length) ∨ (3 ≤ ss.length ∧ ∃ s ∈ ss, s.Refused symbols e) := by
  unfold ofStatements at h
  split at h
  · rename_i first second third rest
    refine .inr ⟨by simp, ?_⟩
    dsimp only at h
    split at h
    · split at h
      · cases h
        have hlast := List.getLast_mem (List.cons_ne_nil third rest)
        exact ⟨_, List.mem_cons_of_mem _ (List.mem_cons_of_mem _ hlast), .lastNotEnd⟩
      · split at h
        · rename_i stray hstray
          cases h
          have hbody := List.dropLast_subset _ (List.mem_of_find?_eq_some hstray)
          exact ⟨stray, List.mem_cons_of_mem _ hbody, .misplaced⟩
        · cases h
    · cases h
      exact ⟨first, List.mem_cons_self .., .firstNotStart⟩
  · rename_i hshort
    cases h
    refine .inl ⟨?_, rfl⟩
    match ss with
    | [] | [_] | [_, _] => simp
    | first :: second :: third :: rest => exact absurd rfl (hshort first second third rest)

/-- A layout has no records because it has too few statements, or because of one of them. -/
theorem Layout.records_eq_error {l : Layout} {e : SourceError} (h : l.records = .error e) :
    (l.statements.toList.length < 3 ∧ e = .tooFewStatements l.statements.toList.length) ∨
      (3 ≤ l.statements.toList.length ∧ ∃ s ∈ l.statements.toList, s.Refused l.symbols e) := by
  unfold Layout.records at h
  rcases Checked.bind_eq_error_iff.mp h with h | ⟨o, ho, h⟩
  · exact Outline.ofStatements_eq_error h l.symbols
  obtain ⟨first, hss, -⟩ := Outline.ofStatements_eq_ok ho
  have hlong : 3 ≤ l.statements.toList.length := by
    match hstatements : l.statements.toList with
    | [] | [_] | [_, _] =>
      rw [hstatements] at ho
      cases ho
    | _ :: _ :: _ :: _ => simp
  refine .inr ⟨hlong, ?_⟩
  rw [hss]
  rcases Checked.bind_eq_error_iff.mp h with h | ⟨_, -, h⟩
  · obtain ⟨b, hb, h⟩ := Checked.mapM_eq_error h
    obtain ⟨s, hs, h⟩ := Checked.mapM_eq_error h
    have hbody := (List.mem_filter.mp (mem_filter_of_mem_blocks hb hs)).1
    exact ⟨s, List.mem_cons_of_mem _ (List.mem_append_left _ hbody), Statement.objectCode_eq_error h⟩
  rcases Checked.bind_eq_error_iff.mp h with h | ⟨_, -, h⟩
  · exact ⟨o.last, List.mem_cons_of_mem _ (List.mem_append_right _ (List.mem_singleton_self _)),
      Statement.entry_eq_error h⟩
  · cases h

/-! ### Operands -/

/-- The operand is this symbol, by itself or indexed. -/
def Statement.Names (s : Statement) (symbol : String) : Prop :=
  s.operand = some symbol ∨ s.operand = some (symbol ++ ",X")

theorem Payload.ofReference_eq_ok {text symbol : String} {indexed : Bool}
    (h : ofReference text = .ok (.instruction (some symbol) indexed)) : text = symbol ∨ text = symbol ++ ",X" := by
  unfold ofReference at h
  split at h
  rename_i reference flag hreference
  split at h
  · cases h
    split at hreference
    · rename_i cs hcs
      obtain ⟨rfl, -⟩ := Prod.mk.inj hreference
      refine .inr (String.toList_injective ?_)
      rw [Text.dropSuffix?_eq_some_iff.mp hcs, String.toList_append, String.toList_ofList]
      rfl
    · obtain ⟨rfl, -⟩ := Prod.mk.inj hreference
      exact .inl rfl
  · cases h

theorem Payload.Suits.of_finish {symbol : Option String} {address : Option Nat} {operation : Operation}
    (h : (Payload.finish symbol address).Suits operation) : operation = .directive .finish := by
  unfold Payload.Suits at h
  split at h <;> simp_all

/-- A symbol that is undefined is the operand of its statement. -/
theorem Statement.Refused.names {symbols : SymbolTable} {s : Statement} {n : Nat} {symbol : String} (hs : s.WellFormed)
    (hpayload : Payload.ofOperand s.operation s.label s.operand = .ok s.payload)
    (h : s.Refused symbols (.undefinedSymbol n symbol)) : s.Names symbol ∧ symbols.address? symbol = none := by
  have hsuits := hs.suits
  cases h with
  | reference hinstruction hsymbol =>
    refine ⟨?_, hsymbol⟩
    rw [hinstruction] at hsuits hpayload
    obtain ⟨op, hoperation⟩ := hsuits.of_instruction
    rw [hoperation] at hpayload
    cases hoperand : s.operand with
    | none =>
      rw [hoperand] at hpayload
      simp only [Payload.ofOperand] at hpayload
      split at hpayload <;> cases hpayload
    | some text =>
      rw [hoperand] at hpayload
      rcases Payload.ofReference_eq_ok hpayload with rfl | rfl
      · exact .inl hoperand
      · exact .inr hoperand
  | entry hfinish hsymbol =>
    refine ⟨?_, hsymbol⟩
    rw [hfinish] at hsuits hpayload
    rw [hsuits.of_finish] at hpayload
    cases hoperand : s.operand with
    | none =>
      rw [hoperand] at hpayload
      cases hpayload
    | some text =>
      rw [hoperand] at hpayload
      have hread := (Payload.finish.inj (Payload.ofFinish_some hpayload).1).1
      by_cases htext : isSymbol text
      · rw [if_pos htext] at hread
        cases hread
        exact .inl hoperand
      · rw [if_neg htext] at hread
        cases hread

/-! ### Statements on lines -/

/-- The statement that line `n` of a text spells, at some location. -/
def Statement.StandsOn (text : String) (n : Nat) (s : Statement) : Prop :=
  ∃ fields location, LineOf text n fields ∧ Statement.parse fields location n = .ok s

/-- Line `n` of a text is a statement with this label. -/
def CarriesLabel (text : String) (n : Nat) (label : String) : Prop :=
  ∃ s : Statement, s.StandsOn text n ∧ s.label = some label

theorem Statement.standsOn_of_parse {text : String} {line : SourceLine} {location : Nat} {s : Statement}
    (hline : line ∈ sourceLines text) (h : Statement.parse line.fields location line.number = .ok s) :
    s.StandsOn text line.number :=
  ⟨line.fields, location, mem_sourceLines.mp hline, h⟩

/-- A layout that takes in a line has its label. -/
theorem CarriesLabel.exists_statement {text label : String} {n : Nat} (h : CarriesLabel text n label) :
    ∃ line ∈ sourceLines text, line.number = n ∧
      ∀ lines l, Layout.ofLines lines = .ok l → line ∈ lines →
        ∃ s ∈ l.statements.toList, s.line = n ∧ s.label = some label := by
  obtain ⟨s, ⟨fields, location, hline, hparse⟩, hlabel⟩ := h
  refine ⟨⟨n, fields⟩, mem_sourceLines.mpr hline, rfl, ?_⟩
  intro lines l hlayout hmem
  obtain ⟨t, ht, hparse'⟩ := (Layout.entered_ofLines hlayout).listed.exists_statement hmem
  exact ⟨t, ht, Statement.parse_line hparse', (Statement.parse_label hparse' hparse).trans hlabel⟩

section

variable {text : String} {front back : List SourceLine} {line : SourceLine} {l : Layout}

theorem mem_front_of_lt (hlines : sourceLines text = front ++ line :: back) {k : SourceLine}
    (hk : k ∈ sourceLines text) (hlt : k.number < line.number) : k ∈ front := by
  have hpairwise := hlines ▸ pairwise_sourceLines text
  have hback := List.pairwise_cons.mp (List.pairwise_append.mp hpairwise).2.1
  rw [hlines] at hk
  rcases List.mem_append.mp hk with hk | hk
  · exact hk
  · rcases List.mem_cons.mp hk with rfl | hk
    · exact absurd hlt (Nat.lt_irrefl _)
    · exact absurd hlt (Nat.lt_asymm (hback.1 k hk))

/-- A label that is taken stands on a line before. -/
theorem Layout.carriesLabel_of_entry (hlines : sourceLines text = front ++ line :: back)
    (hlayout : Layout.ofLines front = .ok l) {label : String} {earlier : Symbol}
    (h : l.symbols.symbol? label = some earlier) :
    earlier.line < line.number ∧ CarriesLabel text earlier.line label := by
  obtain ⟨s, hs, hlabel, hearlier⟩ := indexed_ofLines hlayout label earlier h
  obtain ⟨k, hk, hparse⟩ := (entered_ofLines hlayout).listed.exists_line hs
  have hpairwise := hlines ▸ pairwise_sourceLines text
  have hmem : k ∈ sourceLines text := hlines ▸ List.mem_append_left _ hk
  rw [← hearlier, Statement.parse_line hparse]
  exact ⟨(List.pairwise_append.mp hpairwise).2.2 k hk line (List.mem_cons_self ..), s,
    Statement.standsOn_of_parse hmem hparse, hlabel⟩

/-- Lines that a layout takes in have different labels. -/
theorem Layout.not_carriesLabel_twice (hlines : sourceLines text = front ++ line :: back)
    (hlayout : Layout.ofLines front = .ok l) {j k : Nat} {name : String} (hjk : j < k) (hk : k < line.number)
    (hj : CarriesLabel text j name) : ¬ CarriesLabel text k name := by
  intro hcarries
  obtain ⟨linej, hlinej, rfl, hfoundj⟩ := hj.exists_statement
  obtain ⟨linek, hlinek, rfl, hfoundk⟩ := hcarries.exists_statement
  have hfrontj := mem_front_of_lt hlines hlinej (Nat.lt_trans hjk hk)
  have hfrontk := mem_front_of_lt hlines hlinek hk
  obtain ⟨s, hs, hnumbers, hlabels⟩ := hfoundj front l hlayout hfrontj
  obtain ⟨t, ht, hnumbert, hlabelt⟩ := hfoundk front l hlayout hfrontk
  have hne : s ≠ t := by
    rintro rfl
    omega
  have : Std.Symm fun s t : Statement => ∀ name, s.label = some name → t.label ≠ some name :=
    ⟨fun _ _ h name ht hs => h name hs ht⟩
  exact (entered_ofLines hlayout).distinct.forall hs ht hne name hlabels hlabelt

end

/-! ### Errors of a text -/

/-- What an error of a text says about its lines. -/
structure SourceError.Located (e : SourceError) (text : String) : Prop where
  unplaced : e.line? = none ↔ ∃ l, Layout.ofLines (sourceLines text) = .ok l ∧ l.statements.size < 3
  placed : ∀ n, e.line? = some n → ∃ fields, LineOf text n fields
  undefined : ∀ n symbol, e = .undefinedSymbol n symbol →
    (∃ s : Statement, s.StandsOn text n ∧ s.Names symbol) ∧ ∀ m, ¬ CarriesLabel text m symbol
  duplicate : ∀ n label first, e = .duplicateLabel n label first →
    first < n ∧ CarriesLabel text first label ∧ CarriesLabel text n label ∧
      ∀ j k name, j < k → k < n → CarriesLabel text j name → ¬ CarriesLabel text k name

theorem Layout.located_of_ofLines {text : String} {e : SourceError} (h : Layout.ofLines (sourceLines text) = .error e) :
    e.Located text := by
  obtain ⟨front, line, back, l, hlines, hlayout, hextend⟩ := Checked.foldlM_eq_error h
  have hline : line ∈ sourceLines text := hlines ▸ List.mem_append_right _ (List.mem_cons_self ..)
  have hplaced : e.line? = some line.number := by
    rcases extend_eq_error hextend with hrejects | ⟨_, _, _, -, -, -, rfl⟩
    · exact hrejects.line?_eq
    · rfl
  constructor
  case unplaced => simp [hplaced, h]
  case placed =>
    intro n hn
    cases hplaced.symm.trans hn
    exact ⟨line.fields, mem_sourceLines.mp hline⟩
  case undefined =>
    rintro n symbol rfl
    rcases extend_eq_error hextend with hrejects | ⟨_, _, _, -, -, -, he⟩
    · cases hrejects
    · cases he
  case duplicate =>
    rintro n label first rfl
    rcases extend_eq_error hextend with hrejects | ⟨s, _, earlier, hparse, hlabel, hearlier, he⟩
    · cases hrejects
    · cases he
      obtain ⟨hlt, hfirst⟩ := carriesLabel_of_entry hlines hlayout hearlier
      exact ⟨hlt, hfirst, ⟨s, Statement.standsOn_of_parse hline hparse, hlabel⟩,
        fun j k name hjk hk hj => not_carriesLabel_twice hlines hlayout hjk hk hj⟩

theorem Layout.located_of_records {text : String} {l : Layout} {e : SourceError}
    (hlayout : Layout.ofLines (sourceLines text) = .ok l) (h : l.records = .error e) : e.Located text := by
  rcases records_eq_error h with ⟨hfew, rfl⟩ | ⟨hmany, s, hs, hrefused⟩
  · constructor
    case unplaced => exact iff_of_true rfl ⟨l, hlayout, hfew⟩
    all_goals simp [SourceError.line?]
  have hentered := entered_ofLines hlayout
  obtain ⟨hwf, hpayload⟩ := hentered.listed.parsed hs
  obtain ⟨line, hline, hparse⟩ := hentered.listed.exists_line hs
  have hnumber := Statement.parse_line hparse
  have hplaced : e.line? = some line.number := hnumber ▸ hrefused.line?_eq
  constructor
  case unplaced =>
    have henough : ¬ l.statements.size < 3 := Nat.not_lt.mpr hmany
    simp [hplaced, hlayout, henough]
  case placed =>
    intro n hn
    cases hplaced.symm.trans hn
    exact ⟨line.fields, mem_sourceLines.mp hline⟩
  case undefined =>
    rintro n symbol rfl
    cases hplaced
    obtain ⟨hnames, hnone⟩ := hrefused.names hwf hpayload
    refine ⟨⟨s, Statement.standsOn_of_parse hline hparse, hnames⟩, ?_⟩
    intro m hcarries
    obtain ⟨k, hk, -, hfound⟩ := hcarries.exists_statement
    obtain ⟨t, ht, -, hlabel⟩ := hfound _ l hlayout hk
    have hdefined := ((sound_ofLines hlayout).symbols symbol t.location).mpr ⟨t, ht, hlabel, rfl⟩
    cases hnone.symm.trans hdefined
  case duplicate =>
    rintro n label first rfl
    cases hrefused

/-- The error of a layout is that of any text that goes on behind it. -/
theorem Layout.ofLines_append_of_error {text more : String} {e : SourceError}
    (h : Layout.ofLines (sourceLines text) = .error e) :
    Layout.ofLines (sourceLines (text ++ "\n" ++ more)) = .error e := by
  obtain ⟨lines, hlines⟩ := exists_sourceLines_append text more
  rw [hlines]
  exact Checked.foldlM_append_of_error h lines

/-- Further lines leave the error of a layout as it is, and an error of a text points at a line of it unless the text is
laid out and has too few statements. -/
theorem errors_located (text : String) :
    (∀ e more, Layout.ofLines (sourceLines text) = .error e →
      Layout.ofLines (sourceLines (text ++ "\n" ++ more)) = .error e ∧
      (text.toList.getLast? = some '\n' → Layout.ofLines (sourceLines (text ++ more)) = .error e)) ∧
    ∀ e, assemble text = .error e → e.Located text := by
  refine ⟨?_, ?_⟩
  · intro e more h
    refine ⟨Layout.ofLines_append_of_error h, ?_⟩
    intro hlast
    obtain ⟨front, hfront⟩ := List.getLast?_eq_some_iff.mp hlast
    have htext : text = String.ofList front ++ "\n" := by
      apply String.toList_injective
      rw [String.toList_append, String.toList_ofList]
      exact hfront
    rw [htext, sourceLines_lineFeed] at h
    rw [htext]
    exact Layout.ofLines_append_of_error h
  · intro e h
    rcases Checked.bind_eq_error_iff.mp h with h | ⟨l, hlayout, h⟩
    · exact Layout.located_of_ofLines h
    · exact Layout.located_of_records hlayout h

/-- A label that comes twice is found before the operands are looked at, whatever comes behind; an undefined one is
found behind a blank line and a comment. -/
theorem duplicate_before_undefined :
    Layout.ofLines (sourceLines "P START 0000\n\nA LDA B\nA NOP\n END\nB NOP") =
      .error (.duplicateLabel 4 "A" 3) ∧
    CarriesLabel "P START 0000\n\nA LDA B\nA NOP" 3 "A" ∧ CarriesLabel "P START 0000\n\nA LDA B\nA NOP" 4 "A" ∧
    assemble "P START 0000\n\n# A\nA LDA B,X\n END A" = .error (.undefinedSymbol 4 "B") ∧
    ∃ s : Statement, s.StandsOn "P START 0000\n\n# A\nA LDA B,X\n END A" 4 ∧ s.Names "B" := by
  have hduplicate : Layout.ofLines (sourceLines "P START 0000\n\nA LDA B\nA NOP") =
      .error (.duplicateLabel 4 "A" 3) := by
    rfl
  have hundefined : assemble "P START 0000\n\n# A\nA LDA B,X\n END A" = .error (.undefinedSymbol 4 "B") := by
    decide +kernel
  have hassemble := Checked.bind_eq_error_iff (f := Layout.records).mpr (.inl hduplicate)
  have htaken := ((errors_located _).2 _ hassemble).duplicate 4 "A" 3 rfl
  have hlocated := (errors_located _).2 _ hundefined
  exact ⟨((errors_located _).1 _ " END\nB NOP" hduplicate).1, htaken.2.1, htaken.2.2.1, hundefined,
    (hlocated.undefined 4 "B" rfl).1⟩

end Tribyte
