import Mathlib.Control.Monad.Basic
import Tribyte.Proofs.Assembly.Program

/-! Which source texts assemble.

The lines of a text spell statements, each at the location counter that the one before it leaves (`Listed`). A
layout takes them all in where the counter stays within a word and no label comes twice (`Layout.Entered`, kept line
by line through `entered_cons_iff`). `assembles_iff` adds what object code asks for: a text assembles exactly where
its statements form a program (`IsProgram`). -/
namespace Tribyte

open Text

/-! ### Statements of lines -/

/-- Statements that lines spell from a location counter on. -/
inductive Listed : (counter : Nat) → List SourceLine → List Statement → Prop
  | nil {counter : Nat} : Listed counter [] []
  | cons {counter : Nat} {line : SourceLine} {lines : List SourceLine} {s : Statement} {ss : List Statement}
      (hparse : Statement.parse line.fields counter line.number = .ok s) (hrest : Listed s.following lines ss) :
      Listed counter (line :: lines) (s :: ss)

theorem Statement.parse_payload {fields : List String} {location line : Nat} {s : Statement}
    (h : Statement.parse fields location line = .ok s) :
    Payload.ofOperand s.operation s.label s.operand = .ok s.payload := by
  obtain ⟨parts, payload, -, -, hpayload, rfl⟩ := parse_eq_ok_iff.mp h
  exact hpayload

namespace Listed

variable {counter : Nat} {lines : List SourceLine} {ss ts : List Statement}

theorem exists_line (h : Listed counter lines ss) {s : Statement} (hs : s ∈ ss) :
    ∃ line ∈ lines, Statement.parse line.fields s.location line.number = .ok s := by
  induction h with
  | nil => cases hs
  | @cons _ line _ _ _ hparse _ ih =>
    rcases List.mem_cons.mp hs with rfl | hs
    · exact ⟨line, List.mem_cons_self .., (Statement.parse_wellFormed hparse).2 ▸ hparse⟩
    · obtain ⟨line', hline', hparse'⟩ := ih hs
      exact ⟨line', List.mem_cons_of_mem line hline', hparse'⟩

theorem parsed (h : Listed counter lines ss) {s : Statement} (hs : s ∈ ss) :
    s.WellFormed ∧ Payload.ofOperand s.operation s.label s.operand = .ok s.payload := by
  obtain ⟨_, -, hparse⟩ := h.exists_line hs
  exact ⟨(Statement.parse_wellFormed hparse).1, Statement.parse_payload hparse⟩

theorem exists_statement (h : Listed counter lines ss) {line : SourceLine} (hline : line ∈ lines) :
    ∃ s ∈ ss, Statement.parse line.fields s.location line.number = .ok s := by
  induction h with
  | nil => cases hline
  | @cons _ _ _ s _ hparse _ ih =>
    rcases List.mem_cons.mp hline with rfl | hline
    · exact ⟨s, List.mem_cons_self .., (Statement.parse_wellFormed hparse).2 ▸ hparse⟩
    · obtain ⟨s', hs', hparse'⟩ := ih hline
      exact ⟨s', List.mem_cons_of_mem s hs', hparse'⟩

/-- Lines spell one list of statements only. -/
theorem unique (hs : Listed counter lines ss) (ht : Listed counter lines ts) : ss = ts := by
  induction hs generalizing ts with
  | nil =>
    cases ht
    rfl
  | cons hparse _ ih =>
    cases ht with
    | cons hparse' hrest =>
      cases hparse.symm.trans hparse'
      rw [ih hrest]

end Listed

/-! ### Layouts -/

namespace Layout

theorem advance_of_le {l : Layout} {s : Statement} (hlocation : s.location = l.counter)
    (h : s.following ≤ Word.greatest) : l.advance s = .ok (s.startOr l.start, s.following) := by
  unfold advance
  split
  · rename_i hpayload
    rw [Statement.following, Statement.startOr, Statement.startOr, hpayload]
  · rename_i hpayload
    have hstartOr := Statement.startOr_of_payload hpayload
    rw [Statement.following, hstartOr, hlocation] at h
    rw [Statement.following, hstartOr, hstartOr, hlocation]
    exact if_neg (Nat.not_lt.mpr h)

theorem exists_defineLabel_iff {symbols : SymbolTable} {s : Statement} :
    (∃ symbols', defineLabel symbols s = .ok symbols') ↔
      ∀ name, s.label = some name → symbols.address? name = none := by
  simp only [defineLabel_eq_ok_iff]
  cases hlabel : s.label with
  | none => simp
  | some label => simp [SymbolTable.exists_define_iff, SymbolTable.address?_eq_none_iff]

theorem defineLabel_eq_none {symbols symbols' : SymbolTable} {s : Statement}
    (h : defineLabel symbols s = .ok symbols') (name : String) :
    symbols'.address? name = none ↔ symbols.address? name = none ∧ s.label ≠ some name := by
  simp only [Option.eq_none_iff_forall_ne_some, ne_eq, defineLabel_eq_ok h, not_or, forall_and]
  constructor
  · intro hnone
    exact ⟨hnone.1, fun hlabel => hnone.2 s.location ⟨hlabel, rfl⟩⟩
  · intro hnone
    exact ⟨hnone.1, fun _ hlabel => hnone.2 hlabel.1⟩

/-- A layout takes in a line whose statement keeps the counter within a word and has no label that is taken. -/
theorem extend_eq_ok_iff {l l' : Layout} {line : SourceLine} :
    l.extend line = .ok l' ↔ ∃ s symbols, Statement.parse line.fields l.counter line.number = .ok s ∧
      s.following ≤ Word.greatest ∧ defineLabel l.symbols s = .ok symbols ∧
      l' = { symbols, statements := l.statements.push s, start := s.startOr l.start, counter := s.following } := by
  unfold extend
  constructor
  · intro h
    obtain ⟨s, hparse, h⟩ := Checked.bind_eq_ok_iff.mp h
    obtain ⟨⟨start, counter⟩, hadvance, h⟩ := Checked.bind_eq_ok_iff.mp h
    obtain ⟨symbols, hdefine, h⟩ := Checked.bind_eq_ok_iff.mp h
    cases h
    obtain ⟨hs, hlocation⟩ := Statement.parse_wellFormed hparse
    obtain ⟨rfl, hbound, rfl⟩ := advance_eq_ok hlocation hs hadvance
    exact ⟨s, symbols, hparse, hbound, hdefine, rfl⟩
  · intro h
    obtain ⟨s, symbols, hparse, hbound, hdefine, rfl⟩ := h
    have hadvance := advance_of_le (Statement.parse_wellFormed hparse).2 hbound
    rw [hparse]
    show (l.advance s >>= _) = _
    rw [hadvance]
    show (defineLabel l.symbols s >>= _) = _
    rw [hdefine]
    rfl

/-- Statements of lines that a layout takes in. -/
structure Entered (l : Layout) (lines : List SourceLine) (ss : List Statement) : Prop where
  listed : Listed l.counter lines ss
  bounded : ∀ s ∈ ss, s.following ≤ Word.greatest
  distinct : ss.Pairwise fun s t => ∀ name, s.label = some name → t.label ≠ some name
  fresh : ∀ s ∈ ss, ∀ name, s.label = some name → l.symbols.address? name = none

theorem entered_nil (l : Layout) : Entered l [] [] := ⟨.nil, by simp, .nil, by simp⟩

/-- What is asked of the first line is that it can be taken in, and of the others that the layout behind it takes
them in. -/
theorem entered_cons_iff {l : Layout} {line : SourceLine} {lines : List SourceLine} {s : Statement}
    {ss : List Statement} :
    l.Entered (line :: lines) (s :: ss) ↔
      ∃ l', l.extend line = .ok l' ∧ l'.statements = l.statements.push s ∧ l'.Entered lines ss := by
  constructor
  · intro h
    obtain ⟨hlisted, hbounded, hdistinct, hfresh⟩ := h
    cases hlisted with
    | cons hparse hrest =>
      obtain ⟨hapart, hdistinct⟩ := List.pairwise_cons.mp hdistinct
      obtain ⟨symbols, hdefine⟩ := exists_defineLabel_iff.mpr (hfresh s (List.mem_cons_self ..))
      refine ⟨_, extend_eq_ok_iff.mpr ⟨s, symbols, hparse, hbounded s (List.mem_cons_self ..), hdefine, rfl⟩, rfl,
        hrest, fun t ht => hbounded t (List.mem_cons_of_mem s ht), hdistinct, ?_⟩
      intro t ht name hname
      exact (defineLabel_eq_none hdefine name).mpr
        ⟨hfresh t (List.mem_cons_of_mem s ht) name hname, fun hlabel => hapart t ht name hlabel hname⟩
  · intro h
    obtain ⟨l', hextend, hpush, hlisted, hbounded, hdistinct, hfresh⟩ := h
    obtain ⟨t, symbols, hparse, hbound, hdefine, rfl⟩ := extend_eq_ok_iff.mp hextend
    obtain ⟨rfl, -⟩ := Array.push_eq_push.mp hpush
    have hnone : ∀ u ∈ ss, ∀ name, u.label = some name → l.symbols.address? name = none ∧ t.label ≠ some name :=
      fun u hu name hname => (defineLabel_eq_none hdefine name).mp (hfresh u hu name hname)
    refine ⟨.cons hparse hlisted, ?_, List.pairwise_cons.mpr ⟨?_, hdistinct⟩, ?_⟩
    · exact List.forall_mem_cons.mpr ⟨hbound, hbounded⟩
    · intro u hu name hlabel hname
      exact (hnone u hu name hname).2 hlabel
    · refine List.forall_mem_cons.mpr ⟨exists_defineLabel_iff.mp ⟨symbols, hdefine⟩, ?_⟩
      intro u hu name hname
      exact (hnone u hu name hname).1

theorem entered_of_foldlM {l l' : Layout} {lines : List SourceLine} (h : lines.foldlM extend l = .ok l') :
    ∃ ss, l'.statements.toList = l.statements.toList ++ ss ∧ l.Entered lines ss := by
  induction lines generalizing l with
  | nil =>
    cases h
    exact ⟨[], (List.append_nil _).symm, entered_nil _⟩
  | cons line lines ih =>
    rw [List.foldlM_cons] at h
    obtain ⟨l₁, hextend, h⟩ := Checked.bind_eq_ok_iff.mp h
    obtain ⟨ss, hss, hentered⟩ := ih h
    obtain ⟨s, _, _, _, _, rfl⟩ := extend_eq_ok_iff.mp hextend
    rw [Array.toList_push, List.append_assoc] at hss
    exact ⟨s :: ss, hss, entered_cons_iff.mpr ⟨_, hextend, rfl, hentered⟩⟩

theorem entered_ofLines {l : Layout} {lines : List SourceLine} (h : ofLines lines = .ok l) :
    Entered {} lines l.statements.toList := by
  obtain ⟨ss, hss, hentered⟩ := entered_of_foldlM h
  rw [Array.toList_empty, List.nil_append] at hss
  rwa [hss]

theorem Entered.foldlM {l : Layout} {lines : List SourceLine} {ss : List Statement} (h : l.Entered lines ss) :
    ∃ l', lines.foldlM extend l = .ok l' ∧ l'.statements.toList = l.statements.toList ++ ss := by
  induction lines generalizing l ss with
  | nil =>
    cases h.listed
    exact ⟨l, rfl, (List.append_nil _).symm⟩
  | cons line lines ih =>
    cases ss with
    | nil => cases h.listed
    | cons s ss =>
      obtain ⟨l₁, hextend, hpush, hentered⟩ := entered_cons_iff.mp h
      obtain ⟨l', hfold, hstatements⟩ := ih hentered
      refine ⟨l', ?_, ?_⟩
      · rw [List.foldlM_cons, hextend]
        exact hfold
      · rw [hstatements, hpush, Array.toList_push, List.append_assoc]
        rfl

end Layout

/-! ### Frames -/

/-- START, at least one statement more, and END. -/
structure Frame (ss : List Statement) (first : Statement) (body : List Statement) (last : Statement) : Prop where
  statements : ss = first :: (body ++ [last])
  body_ne_nil : body ≠ []
  first : first.operation = .directive .start
  last : last.operation = .directive .finish
  interior : ∀ s ∈ body, s.operation ≠ .directive .start ∧ s.operation ≠ .directive .finish

namespace Frame

variable {ss body : List Statement} {first last s : Statement} (h : Frame ss first body last)
include h

theorem mem_iff : s ∈ ss ↔ s = first ∨ s ∈ body ∨ s = last := by
  rw [h.statements]
  simp

theorem mem_body (hs : s ∈ ss) (hstart : s.operation ≠ .directive .start) (hfinish : s.operation ≠ .directive .finish) :
    s ∈ body := by
  rcases h.mem_iff.mp hs with rfl | hs | rfl
  · exact absurd h.first hstart
  · exact hs
  · exact absurd h.last hfinish

theorem eq_last (hs : s ∈ ss) (hfinish : s.operation = .directive .finish) : s = last := by
  rcases h.mem_iff.mp hs with rfl | hs | rfl
  · cases h.first.symm.trans hfinish
  · exact absurd hfinish (h.interior s hs).2
  · rfl

theorem outline (hfirst : first.WellFormed) : ∃ name start, Outline.ofStatements ss = .ok ⟨name, start, body, last⟩ := by
  obtain ⟨rfl, hbody, hstart, hlast, hinterior⟩ := h
  have hsuits := hfirst.suits
  rw [hstart] at hsuits
  obtain ⟨name, start, hpayload⟩ := hsuits.start
  -- The scan looks for a third statement, which is the last one where the body has no more than one.
  obtain ⟨second, more, rfl⟩ := List.exists_cons_of_ne_nil hbody
  obtain ⟨third, rest, hrest⟩ := List.exists_cons_of_ne_nil (List.concat_ne_nil last more)
  have hgetLast : (third :: rest).getLast (List.cons_ne_nil third rest) = last := by
    simp [← hrest]
  have hdropLast : (second :: third :: rest).dropLast = second :: more := by
    rw [← hrest, ← List.cons_append, List.dropLast_concat]
  have hstray : (second :: more).find? Outline.isBoundary = none := by
    apply List.find?_eq_none.mpr
    intro s hs
    simp [Outline.isBoundary, hinterior s hs]
  refine ⟨name, start, ?_⟩
  rw [List.cons_append, hrest, Outline.ofStatements]
  simp only [hgetLast, hdropLast, hpayload, hlast, hstray, ne_eq, not_true_eq_false, if_false]

end Frame

theorem frame_of_outlined {l : Layout} {o : Outline} (h : l.Outlined o)
    (ho : Outline.ofStatements l.statements.toList = .ok o) : ∃ first, Frame l.statements.toList first o.body o.last := by
  obtain ⟨first, hss, hfirst⟩ := h.statements
  have hsuits := (h.sound.wellFormed first (by simp [hss])).suits
  rw [hfirst] at hsuits
  refine ⟨first, hss, ?_, hsuits.of_start.1, h.last, fun s hs => Outline.isBoundary_eq_false (h.interior s hs)⟩
  intro hbody
  rw [hss, hbody] at ho
  cases ho

/-! ### Object code -/

theorem Payload.ofFinish_some {text : String} {payload : Payload} (h : ofFinish (some text) = .ok payload) :
    payload = .finish (if isSymbol text then some text else none) (readAddress? text) ∧
      (isSymbol text ∨ readAddress? text ≠ none) := by
  by_cases hsymbol : isSymbol text
  · simp only [ofFinish, hsymbol, if_true, reduceCtorEq, false_and, if_false, Except.ok.injEq] at h
    simp [hsymbol, ← h]
  · by_cases hread : readAddress? text = none
    · simp [ofFinish, hsymbol, hread] at h
    · simp [ofFinish, hsymbol, hread] at h
      simp [hsymbol, hread, ← h]

namespace Statement

variable {symbols : SymbolTable} {s : Statement}

theorem coded_code_iff : Coded symbols s (s.code symbols) ↔ ∃ c, Coded symbols s c := by
  constructor
  · intro h
    exact ⟨_, h⟩
  · intro h
    obtain ⟨c, hc⟩ := h
    rwa [code_eq (objectCode_eq_ok_iff.mpr hc)]

/-- A statement that calls for object code has some where its symbol, if any, is defined and within reach. -/
theorem coded_iff (hs : s.WellFormed) (hcode : s.hasCode) :
    Coded symbols s (s.code symbols) ↔ ∀ name indexed, s.payload = .instruction (some name) indexed →
      ∃ address, symbols.address? name = some address ∧ address ≤ Instruction.greatestAddress := by
  rw [coded_code_iff]
  constructor
  · intro h name indexed hpayload
    obtain ⟨c, hc⟩ := h
    cases hc with
    | symbolic _ hpayload' haddress hbound =>
      cases hpayload.symm.trans hpayload'
      exact ⟨_, haddress, hbound⟩
    | plain _ hpayload' | word hpayload' | bytes hpayload' => cases hpayload.symm.trans hpayload'
  · intro h
    have hsuits := hs.suits
    cases hpayload : s.payload with
    | instruction symbol indexed =>
      rw [hpayload] at hsuits
      obtain ⟨op, hoperation⟩ := hsuits.of_instruction
      cases symbol with
      | none => exact ⟨_, .plain hoperation hpayload⟩
      | some name =>
        obtain ⟨address, haddress, hbound⟩ := h name indexed hpayload
        exact ⟨_, .symbolic hoperation hpayload haddress hbound⟩
    | word value => exact ⟨_, .word hpayload⟩
    | bytes bs => exact ⟨_, .bytes hpayload⟩
    | start | finish | reserve =>
      rw [hasCode, hpayload] at hcode
      cases hcode

/-- Execution can start where the operand of END, if any, is a label that is defined or an address. -/
theorem exists_entry_iff (hpayload : Payload.ofFinish s.operand = .ok s.payload)
    (hsymbols : ∀ name, symbols.address? name ≠ none → isSymbol name) :
    (∃ entry, s.entry symbols = .ok entry) ↔
      ∀ text, s.operand = some text → symbols.address? text ≠ none ∨ readAddress? text ≠ none := by
  cases hoperand : s.operand with
  | none =>
    rw [hoperand] at hpayload
    have hfinish : s.payload = .finish none (some 0) := (Except.ok.inj hpayload).symm
    simp [entry, hfinish]
  | some text =>
    rw [hoperand] at hpayload
    obtain ⟨hfinish, hread⟩ := Payload.ofFinish_some hpayload
    by_cases haddress : symbols.address? text = none
    · -- An undefined label leaves the address that the operand spells.
      by_cases hsymbol : isSymbol text
      · cases hvalue : readAddress? text <;> simp [entry, hfinish, hsymbol, haddress, hvalue]
      · obtain ⟨value, hvalue⟩ := Option.ne_none_iff_exists'.mp (hread.resolve_left hsymbol)
        simp [entry, hfinish, hsymbol, hvalue]
    · obtain ⟨address, hdefined⟩ := Option.ne_none_iff_exists'.mp haddress
      simp [entry, hfinish, hsymbols text haddress, hdefined]

end Statement

/-! ### Programs -/

theorem readAddress?_ne_none_iff {text : String} :
    readAddress? text ≠ none ↔ text.toList.length = 4 ∧ text.toList.all Hexadecimal.isDigit := by
  unfold readAddress? Hexadecimal.read?
  split <;> simp_all

/-- What makes statements a program. -/
structure IsProgram (ss : List Statement) : Prop where
  bounded : ∀ s ∈ ss, s.following ≤ Word.greatest
  distinct : ss.Pairwise fun s t => ∀ name, s.label = some name → t.label ≠ some name
  framed : ∃ first body last, Frame ss first body last
  resolved : ∀ s ∈ ss, ∀ name indexed, s.payload = .instruction (some name) indexed →
    ∃ t ∈ ss, t.label = some name ∧ t.location ≤ Instruction.greatestAddress
  entry : ∀ s ∈ ss, s.operation = .directive .finish → ∀ text, s.operand = some text →
    (∃ t ∈ ss, t.label = some text) ∨ text.toList.length = 4 ∧ text.toList.all Hexadecimal.isDigit

namespace Layout

namespace Sound

variable {l : Layout} (hl : l.Sound) {name : String}
include hl

theorem exists_address_iff (name : String) {P : Nat → Prop} :
    (∃ address, l.symbols.address? name = some address ∧ P address) ↔
      ∃ t ∈ l.statements.toList, t.label = some name ∧ P t.location := by
  constructor
  · intro h
    obtain ⟨address, haddress, hP⟩ := h
    obtain ⟨t, ht, hlabel, rfl⟩ := (hl.symbols name address).mp haddress
    exact ⟨t, ht, hlabel, hP⟩
  · intro h
    obtain ⟨t, ht, hlabel, hP⟩ := h
    exact ⟨t.location, (hl.symbols name _).mpr ⟨t, ht, hlabel, rfl⟩, hP⟩

theorem address?_ne_none_iff :
    l.symbols.address? name ≠ none ↔ ∃ t ∈ l.statements.toList, t.label = some name := by
  have h := hl.exists_address_iff name (P := fun _ => True)
  simpa only [and_true, ← Option.ne_none_iff_exists'] using h

theorem isSymbol_of_defined (h : l.symbols.address? name ≠ none) : isSymbol name := by
  obtain ⟨t, ht, hlabel⟩ := hl.address?_ne_none_iff.mp h
  exact (Bool.and_eq_true_iff.mp ((hl.wellFormed t ht).label name hlabel)).2

theorem coded_iff {s : Statement} (hs : s ∈ l.statements.toList) (hcode : s.hasCode) :
    Coded l.symbols s (s.code l.symbols) ↔ ∀ name indexed, s.payload = .instruction (some name) indexed →
      ∃ t ∈ l.statements.toList, t.label = some name ∧ t.location ≤ Instruction.greatestAddress := by
  simp only [Statement.coded_iff (hl.wellFormed s hs) hcode, hl.exists_address_iff]

theorem exists_entry_iff {s : Statement} (hpayload : Payload.ofFinish s.operand = .ok s.payload) :
    (∃ entry, s.entry l.symbols = .ok entry) ↔ ∀ text, s.operand = some text →
      (∃ t ∈ l.statements.toList, t.label = some text) ∨
        text.toList.length = 4 ∧ text.toList.all Hexadecimal.isDigit := by
  rw [Statement.exists_entry_iff hpayload fun _ => hl.isSymbol_of_defined]
  simp only [hl.address?_ne_none_iff, readAddress?_ne_none_iff]

end Sound

/-- A layout has records exactly where its statements form a program. -/
theorem exists_records_iff {l : Layout} {lines : List SourceLine} (hl : l.Sound)
    (h : Entered {} lines l.statements.toList) :
    (∃ records, l.records = .ok records) ↔ IsProgram l.statements.toList := by
  have hfinish : ∀ s ∈ l.statements.toList, s.operation = .directive .finish →
      Payload.ofFinish s.operand = .ok s.payload := by
    intro s hs hoperation
    have := (h.listed.parsed hs).2
    rwa [hoperation] at this
  constructor
  · intro hrecords
    obtain ⟨records, hrecords⟩ := hrecords
    obtain ⟨o, entry, ho, hcoded, hentry, -⟩ := records_eq_ok_iff.mp hrecords
    obtain ⟨first, hframe⟩ := frame_of_outlined (outlined hl ho) ho
    refine ⟨h.bounded, h.distinct, ⟨first, o.body, o.last, hframe⟩, ?_, ?_⟩
    · intro s hs name indexed hpayload
      have hsuits := (hl.wellFormed s hs).suits
      rw [hpayload] at hsuits
      obtain ⟨op, hoperation⟩ := hsuits.of_instruction
      have hbody := hframe.mem_body hs (by simp [hoperation]) (by simp [hoperation])
      have hcode := Statement.hasCode_of_instruction hpayload
      exact (hl.coded_iff hs hcode).mp (hcoded s hbody hcode) name indexed hpayload
    · intro s hs hoperation
      have hlast := hframe.eq_last hs hoperation
      exact (hl.exists_entry_iff (hfinish s hs hoperation)).mp ⟨entry, hlast ▸ hentry⟩
  · intro hprogram
    obtain ⟨first, body, last, hframe⟩ := hprogram.framed
    have hmem : ∀ s, s = first ∨ s ∈ body ∨ s = last → s ∈ l.statements.toList := fun _ => hframe.mem_iff.mpr
    have hlast := hmem last (.inr (.inr rfl))
    obtain ⟨name, start, ho⟩ := hframe.outline (hl.wellFormed first (hmem first (.inl rfl)))
    obtain ⟨entry, hentry⟩ := (hl.exists_entry_iff (hfinish last hlast hframe.last)).mpr
      (hprogram.entry last hlast hframe.last)
    refine ⟨_, records_eq_ok_iff.mpr ⟨_, entry, ho, ?_, hentry, rfl⟩⟩
    intro s hs hcode
    have hs := hmem s (.inr (.inl hs))
    exact (hl.coded_iff hs hcode).mpr (hprogram.resolved s hs)

end Layout

theorem exists_assemble_iff {text : String} :
    (∃ records, assemble text = .ok records) ↔ ∃ ss, Listed 0 (sourceLines text) ss ∧ IsProgram ss := by
  constructor
  · intro h
    obtain ⟨records, h⟩ := h
    obtain ⟨l, hlayout, hrecords⟩ := Checked.bind_eq_ok_iff.mp h
    obtain ⟨ss, hss, hentered⟩ := Layout.entered_of_foldlM hlayout
    rw [Array.toList_empty, List.nil_append] at hss
    subst hss
    have hprogram := (Layout.exists_records_iff (Layout.sound_ofLines hlayout) hentered).mp ⟨records, hrecords⟩
    exact ⟨_, hentered.listed, hprogram⟩
  · intro h
    obtain ⟨ss, hlisted, hprogram⟩ := h
    have hentered : Layout.Entered {} (sourceLines text) ss :=
      ⟨hlisted, hprogram.bounded, hprogram.distinct, by simp [SymbolTable.address?]⟩
    obtain ⟨l, hlayout, hss⟩ := hentered.foldlM
    rw [Array.toList_empty, List.nil_append] at hss
    subst hss
    obtain ⟨records, hrecords⟩ := (Layout.exists_records_iff (Layout.sound_ofLines hlayout) hentered).mpr hprogram
    exact ⟨records, Checked.bind_eq_ok_iff.mpr ⟨l, hlayout, hrecords⟩⟩

/-- A text assembles exactly where the statements of its lines form a program. In particular one with an
instruction whose symbol is undefined, or too far away, never becomes object code. -/
theorem assembles_iff (text : String) :
    ((∃ records, assemble text = .ok records) ↔ ∃ ss, Listed 0 (sourceLines text) ss ∧ IsProgram ss) ∧
    ∀ ss, Listed 0 (sourceLines text) ss → ∀ s ∈ ss, ∀ name indexed, s.payload = .instruction (some name) indexed →
      (∀ t ∈ ss, t.label = some name → Instruction.greatestAddress < t.location) →
      ∃ e, assemble text = .error e := by
  refine ⟨exists_assemble_iff, ?_⟩
  intro ss hlisted s hs name indexed hpayload hunreachable
  cases hassemble : assemble text with
  | error e => exact ⟨e, rfl⟩
  | ok records =>
    obtain ⟨ts, hlisted', hprogram⟩ := exists_assemble_iff.mp ⟨records, hassemble⟩
    cases hlisted.unique hlisted'
    obtain ⟨t, ht, hlabel, hbound⟩ := hprogram.resolved s hs name indexed hpayload
    exact absurd hbound (Nat.not_le.mpr (hunreachable t ht hlabel))

/-- A label is still within reach at `0x7FFF`, and one byte further it is not. -/
theorem label_at_reach_limit :
    (∃ ss, Listed 0 (sourceLines "P START 7FFC\n LDA N\nN WORD 1\n END\n") ss ∧ IsProgram ss) ∧
    ¬∃ ss, Listed 0 (sourceLines "P START 7FFD\n LDA N\nN WORD 1\n END\n") ss ∧ IsProgram ss := by
  constructor
  · have hassemble : assemble "P START 7FFC\n LDA N\nN WORD 1\n END\n" =
        .ok [.header "P" 0x7FFC 6, .text 0x7FFC [0, 0xFF, 0x7F, 1, 0, 0], .modification 0x7FFD 2, .finish 0] := by
      decide +kernel
    exact (assembles_iff _).1.mp ⟨_, hassemble⟩
  · intro h
    obtain ⟨records, hrecords⟩ := (assembles_iff _).1.mpr h
    have hassemble : assemble "P START 7FFD\n LDA N\nN WORD 1\n END\n" =
        .error (.operand 2 "LDA" (.addressTooLarge 0x8000 "N")) := by
      decide +kernel
    cases hassemble.symm.trans hrecords

end Tribyte
