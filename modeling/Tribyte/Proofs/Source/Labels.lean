import Tribyte.Proofs.Source.Literals

/-! Statements with and without a label.

A label never changes what a statement means, but it does change how its line is divided: of a line without a label
the operand is the second field, which ends at the first blank. Operands hold no blanks (`Payload.ofOperand_solid`),
except for quoted literals. So `label_optional_iff` has one exception: a literal with a blank in it needs a label
before it, and is cut in two without one. -/
namespace Tribyte

open Text

/-! ### Operation names -/

def Directive.name : Directive → String
  | start => "START"
  | finish => "END"
  | byte => "BYTE"
  | word => "WORD"
  | reserveBytes => "RESB"
  | reserveWords => "RESW"

theorem Directive.ofName?_eq_some {name : String} {d : Directive} (h : ofName? name = some d) : name = d.name := by
  unfold ofName? at h
  repeat' split at h
  all_goals cases h
  all_goals assumption

theorem Operation.ofName?_eq_opcode {name : String} {op : Opcode} (h : ofName? name = some (.opcode op)) :
    name = op.mnemonic := by
  unfold ofName? at h
  split at h
  · rename_i hfound
    cases h
    unfold Opcode.ofMnemonic? at hfound
    have hmnemonic := List.find?_some hfound
    exact (beq_iff_eq.mp hmnemonic).symm
  · simp at h

theorem Operation.ofName?_eq_directive {name : String} {d : Directive} (h : ofName? name = some (.directive d)) :
    name = d.name := by
  unfold ofName? at h
  split at h
  · cases h
  · exact Directive.ofName?_eq_some (by simpa using h)

theorem Operation.isSymbol_of_ofName? {name : String} {operation : Operation} (h : ofName? name = some operation) :
    isSymbol name := by
  cases operation with
  | opcode op =>
    rw [ofName?_eq_opcode h]
    cases op <;> decide
  | directive d =>
    rw [ofName?_eq_directive h]
    cases d <;> decide

/-! ### Operands without blanks -/

/-- No character is blank. -/
def Solid (text : String) : Prop := ∀ c ∈ text.toList, isBlank c = false

instance (text : String) : Decidable (Solid text) := List.decidableBAll (fun c => isBlank c = false) text.toList

theorem solid_of_isSymbol {text : String} (h : isSymbol text) : Solid text :=
  fun _ hc => (isSymbol_visible h hc).1

theorem solid_of_readAddress? {text : String} {address : Nat} (h : readAddress? text = some address) : Solid text :=
  fun c hc => (Literal.isDigit_visible (List.all_eq_true.mp (Hexadecimal.all_isDigit_of_read? h) c hc)).1

theorem Text.Numeral.natural?_solid {n : Nat} {cs : List Char} (h : natural? cs = some n) :
    ∀ c ∈ cs, isBlank c = false := by
  unfold natural? at h
  split at h
  · rename_i hdigits
    intro c hc
    have := toNat_of_isDigit (List.all_eq_true.mp hdigits.2 c hc)
    exact isBlank_of_visible (by omega) (by omega)
  · cases h

theorem Text.Numeral.integer?_solid {z : Int} {cs : List Char} (h : integer? cs = some z) :
    ∀ c ∈ cs, isBlank c = false := by
  unfold integer? at h
  split at h
  all_goals
    obtain ⟨z', hz', -⟩ := Option.map_eq_some_iff.mp h
    obtain ⟨n, hn, -⟩ := Option.bind_eq_some_iff.mp hz'
  · exact List.forall_mem_cons.mpr ⟨by decide, natural?_solid hn⟩
  · exact List.forall_mem_cons.mpr ⟨by decide, natural?_solid hn⟩
  · exact natural?_solid hn

theorem Literal.word_solid {text : String} {value : Nat} (h : word text = .ok value) : Solid text := by
  unfold word at h
  unfold Solid
  split at h
  · rename_i hex htext
    rw [htext]
    split at h
    · rename_i hread
      exact marked_solid (Hexadecimal.all_isDigit_of_read? hread)
    · cases h
  · split at h
    · rename_i digits hdigits
      unfold unsignedWord at h
      split at h
      · cases h
      · rename_i hnatural
        rw [dropSuffix?_eq_some_iff.mp hdigits]
        exact List.forall_mem_append.mpr ⟨Numeral.natural?_solid hnatural, List.forall_mem_singleton.mpr (by decide)⟩
    · unfold signedWord at h
      split at h
      · cases h
      · rename_i hinteger
        exact Numeral.integer?_solid hinteger

namespace Payload

theorem ofReference_solid {text : String} {payload : Payload} (h : ofReference text = .ok payload) : Solid text := by
  unfold ofReference at h
  split at h
  rename_i symbol indexed hsymbol
  split at h
  · rename_i hissymbol
    split at hsymbol
    · rename_i cs hcs
      obtain ⟨rfl, -⟩ := Prod.mk.inj hsymbol
      unfold Solid
      rw [dropSuffix?_eq_some_iff.mp hcs]
      have hsolid := solid_of_isSymbol hissymbol
      rw [Solid, String.toList_ofList] at hsolid
      refine List.forall_mem_append.mpr ⟨hsolid, List.forall_mem_cons.mpr ⟨by decide, ?_⟩⟩
      exact List.forall_mem_singleton.mpr (by decide)
    · obtain ⟨rfl, -⟩ := Prod.mk.inj hsymbol
      exact solid_of_isSymbol hissymbol
  · cases h

theorem ofFinish_solid {text : String} {payload : Payload} (h : ofFinish (some text) = .ok payload) : Solid text := by
  by_cases hsymbol : isSymbol text
  · exact solid_of_isSymbol hsymbol
  · cases haddress : readAddress? text with
    | none => simp [ofFinish, hsymbol, haddress] at h
    | some address => exact solid_of_readAddress? haddress

theorem ofCount_solid {unit : Nat} {text : String} {payload : Payload} (h : ofCount unit (some text) = .ok payload) :
    Solid text := by
  obtain ⟨text', htext, h⟩ := Checked.bind_eq_ok_iff.mp h
  cases htext
  split at h
  · cases h
  · rename_i hcount
    unfold readCount? at hcount
    split at hcount
    · rename_i hnatural
      exact Numeral.natural?_solid hnatural
    · cases hcount

theorem ofWord_solid {text : String} {payload : Payload} (h : ofWord (some text) = .ok payload) : Solid text := by
  obtain ⟨text', htext, h⟩ := Checked.bind_eq_ok_iff.mp h
  cases htext
  split at h
  · exact Literal.word_solid ‹_›
  · cases h

theorem ofStart_solid {label : Option String} {text : String} {payload : Payload}
    (h : ofStart label (some text) = .ok payload) : Solid text := by
  unfold ofStart at h
  split at h
  · cases h
  · obtain ⟨text', htext, h⟩ := Checked.bind_eq_ok_iff.mp h
    cases htext
    split at h
    · exact solid_of_readAddress? ‹_›
    · cases h

/-- Only bytes are written with blanks. -/
theorem ofOperand_solid {operation : Operation} {label : Option String} {text : String} {payload : Payload}
    (h : ofOperand operation label (some text) = .ok payload) (hbyte : operation ≠ .directive .byte) : Solid text := by
  cases operation with
  | opcode op => exact ofReference_solid h
  | directive d =>
    cases d with
    | start => exact ofStart_solid h
    | finish => exact ofFinish_solid h
    | byte => exact absurd rfl hbyte
    | word => exact ofWord_solid h
    | reserveBytes | reserveWords => exact ofCount_solid h

theorem bytes_of_ofBytes {text : String} {payload : Payload} (h : ofBytes (some text) = .ok payload) :
    ∃ bs, Literal.bytes text = .ok bs := by
  obtain ⟨text', htext, h⟩ := Checked.bind_eq_ok_iff.mp h
  cases htext
  split at h
  · cases h
  · exact ⟨_, ‹_›⟩

/-- The label matters to START only. -/
theorem ofOperand_label {operation : Operation} (h : operation ≠ .directive .start)
    (label label' operand : Option String) :
    ofOperand operation label operand = ofOperand operation label' operand := by
  cases operation with
  | opcode op => rfl
  | directive d =>
    cases d with
    | start => exact absurd rfl h
    | finish | byte | word | reserveBytes | reserveWords => rfl

end Payload

/-! ### Lines without a label -/

theorem Parts.named_eq_ok_iff {line : Nat} {label : Option String} {name : String} {operand : Option String}
    {parts : Parts} :
    named line label name operand = .ok parts ↔
      ∃ operation, Operation.ofName? name = some operation ∧ parts = { label, name, operand, operation } := by
  unfold named
  cases Operation.ofName? name with
  | none => simp
  | some operation => simp [eq_comm]

section Line

variable {name : String} {operand : List Char} (hname : isSymbol name) (hclear : Clear .outside operand)
include hname hclear

theorem lineFields_name (s : Spacing) {fields : List (List Char)} (hfields : AreFields fields)
    (hwrite : s.write fields = name.toList ++ [' '] ++ operand) :
    lineFields (name.toList ++ ' ' :: operand) = fields.map String.ofList := by
  have hfront : Neutral (name.toList ++ [' ']) := (neutral_of_isSymbol hname).append (by decide)
  have hends : stripComment (Quoting.outside.after operand) [] = [] := rfl
  have htypeset := Typeset.of_neutral hfront hclear hends s hfields hwrite
  rw [List.append_cons, ← hwrite, ← htypeset.lineFields_eq, List.append_nil]

theorem lineFields_name_word (h : IsWord operand) :
    lineFields (name.toList ++ ' ' :: operand) = [name, String.ofList operand] := by
  have hfields : AreFields [name.toList, operand] := ⟨isWord_of_isSymbol hname, h⟩
  rw [lineFields_name hname hclear .single hfields (by simp [Spacing.write, Spacing.join, Spacing.single])]
  simp

theorem lineFields_name_append {a gap rest : List Char} (hoperand : operand = a ++ gap ++ rest) (ha : IsWord a)
    (hgap : Blank gap) (hne : gap ≠ []) (hrest : IsTrimmed rest) :
    lineFields (name.toList ++ ' ' :: operand) = [name, String.ofList a, String.ofList rest] := by
  let s : Spacing := { Spacing.single with second := gap, second_blank := hgap, second_ne_nil := hne }
  have hfields : AreFields [name.toList, a, rest] := ⟨isWord_of_isSymbol hname, ha, hrest⟩
  rw [lineFields_name hname hclear s hfields (by simp [s, hoperand, Spacing.write, Spacing.join, Spacing.single])]
  simp

end Line

theorem lineFields_name_iff {name operand : String} (hname : isSymbol name) (hclear : Clear .outside operand.toList)
    (h : IsTrimmed operand.toList) :
    lineFields (name.toList ++ ' ' :: operand.toList) = [name, operand] ↔ Solid operand := by
  constructor
  · intro hfields
    rcases h.word_or_append with hword | ⟨a, gap, rest, hoperand, ha, hgap, hne, hrest⟩
    · exact hword.solid
    · rw [lineFields_name_append hname hclear hoperand ha hgap hne hrest] at hfields
      simp at hfields
  · intro hsolid
    rw [lineFields_name_word hname hclear ⟨h.ne_nil, hsolid⟩, String.ofList_toList]

/-- Read without a label before it, a literal with a blank in it gives its first part as the name of an operation. -/
theorem parse_divided_literal {name text : String} {bs : List UInt8} (hname : isSymbol name)
    (hclear : Clear .outside text.toList) (hbytes : Literal.bytes text = .ok bs) (hblank : ¬Solid text)
    (location line : Nat) :
    ∃ word, Statement.parse (lineFields (name.toList ++ ' ' :: text.toList)) location line =
      .error (.unknownOperation line word) := by
  rcases (Literal.bytes_isTrimmed hbytes).word_or_append with hword | ⟨a, gap, rest, htext, ha, hgap, hne, hrest⟩
  · exact absurd hword.solid hblank
  have hquoted : ∃ body, text.toList = 'c' :: body := by
    rcases Literal.bytes_eq_ok hbytes with ⟨hex, hhex, hdigits⟩ | ⟨body, hbody, -⟩
    · refine absurd ?_ hblank
      unfold Solid
      rw [hhex]
      exact Literal.marked_solid hdigits
    · exact ⟨_, hbody⟩
  -- The first part begins with a small letter, which no operation does.
  have hunknown : Operation.ofName? (String.ofList a) = none := by
    obtain ⟨c, a', rfl⟩ := List.exists_cons_of_ne_nil ha.ne_nil
    obtain ⟨body, hbody⟩ := hquoted
    have hc : c = 'c' := by
      rw [htext] at hbody
      exact (List.cons.inj hbody).1
    refine Option.eq_none_iff_forall_ne_some.mpr fun operation hoperation => ?_
    have hsymbol := Operation.isSymbol_of_ofName? hoperation
    simp [isSymbol, hc] at hsymbol
  refine ⟨String.ofList a, ?_⟩
  rw [lineFields_name_append hname hclear htext ha hgap hne hrest]
  simp only [Statement.parse, Parts.ofFields, Parts.named, hunknown]
  rfl

namespace Statement

variable {label name operand : String} {location line : Nat} {s : Statement}

theorem parse_labelled (h : parse [label, name, operand] location line = .ok s) :
    ∃ operation payload, Operation.ofName? name = some operation ∧
      Payload.ofOperand operation (some label) (some operand) = .ok payload ∧
      s = { mnemonic := name, operation, location, line, label := some label, operand := some operand, payload } := by
  obtain ⟨parts, payload, hparts, -, hpayload, rfl⟩ := parse_eq_ok_iff.mp h
  obtain ⟨operation, hoperation, rfl⟩ := Parts.named_eq_ok_iff.mp hparts
  exact ⟨operation, payload, hoperation, hpayload, rfl⟩

/-- Where the fields are the same, only the label is missing. -/
theorem parse_unlabelled (hname : name ≠ "START") (h : parse [label, name, operand] location line = .ok s) :
    parse [name, operand] location line = .ok { s with label := none } := by
  obtain ⟨operation, payload, hoperation, hpayload, rfl⟩ := parse_labelled h
  have hstart : operation ≠ .directive .start := by
    intro h
    subst h
    exact hname (Operation.ofName?_eq_directive hoperation)
  refine parse_eq_ok_iff.mpr ⟨⟨none, name, some operand, operation⟩, payload, ?_, rfl, ?_, rfl⟩
  · simp [Parts.ofFields, hoperation]
  · rw [Payload.ofOperand_label hstart none (some label)]
    exact hpayload

end Statement

/-- A statement reads the same without its label, unless a blank divides its operand. Then it is a literal of bytes, and
the line is refused. -/
theorem label_optional_iff {label name operand : String} {location line : Nat} {s : Statement} (hlabel : isLabel label)
    (hname : name ≠ "START")
    (hfields : lineFields (label ++ " " ++ name ++ " " ++ operand).toList = [label, name, operand])
    (hparse : Statement.parse [label, name, operand] location line = .ok s) :
    (lineFields (name ++ " " ++ operand).toList = [name, operand] ∧
      Statement.parse (lineFields (name ++ " " ++ operand).toList) location line = .ok { s with label := none } ↔
        Solid operand) ∧
    (¬Solid operand → name = "BYTE" ∧ ∃ word,
      Statement.parse (lineFields (name ++ " " ++ operand).toList) location line =
        .error (.unknownOperation line word)) := by
  obtain ⟨operation, payload, hoperation, hpayload, -⟩ := Statement.parse_labelled hparse
  have hsymbol := Operation.isSymbol_of_ofName? hoperation
  have hlabelled : (label ++ " " ++ name ++ " " ++ operand).toList =
      label.toList ++ ' ' :: (name.toList ++ ' ' :: operand.toList) := by
    simp
  have hplain : (name ++ " " ++ operand).toList = name.toList ++ ' ' :: operand.toList := by
    simp
  rw [hlabelled, lineFields_symbols (isSymbol_of_isLabel hlabel) hsymbol] at hfields
  obtain ⟨hclear, htrimmed⟩ := trim_stripComment_eq_self hfields.1
  have hdivided := lineFields_name_iff hsymbol hclear (htrimmed.resolve_left hfields.2)
  rw [hplain]
  refine ⟨⟨fun h => hdivided.mp h.1, ?_⟩, ?_⟩
  · intro hsolid
    rw [hdivided.mpr hsolid]
    exact ⟨rfl, Statement.parse_unlabelled hname hparse⟩
  · intro hblank
    obtain rfl : operation = .directive .byte := by
      by_contra hbyte
      exact hblank (Payload.ofOperand_solid hpayload hbyte)
    obtain ⟨bs, hbytes⟩ := Payload.bytes_of_ofBytes hpayload
    exact ⟨Operation.ofName?_eq_directive hoperation, parse_divided_literal hsymbol hclear hbytes hblank location line⟩

/-- An indexed operand and a quoted comment sign need no label. A literal with a blank in it does. -/
theorem solid_operands_need_no_label :
    (∃ s, Statement.parse (lineFields "L LDA V,X".toList) 0 1 = .ok s ∧ s.label = some "L" ∧
      Statement.parse (lineFields "LDA V,X".toList) 0 1 = .ok { s with label := none }) ∧
    (∃ s, Statement.parse (lineFields "L BYTE c'#'".toList) 0 1 = .ok s ∧ s.payload = .bytes [35] ∧
      Statement.parse (lineFields "BYTE c'#'".toList) 0 1 = .ok { s with label := none }) ∧
    ∃ word, Statement.parse (lineFields "BYTE c'a b'".toList) 0 1 = .error (.unknownOperation 1 word) := by
  have hlabel : isLabel "L" := by decide
  have hindexed : lineFields ("L" ++ " " ++ "LDA" ++ " " ++ "V,X").toList = ["L", "LDA", "V,X"] := by decide +kernel
  have hquoted : lineFields ("L" ++ " " ++ "BYTE" ++ " " ++ "c'#'").toList = ["L", "BYTE", "c'#'"] := by decide +kernel
  have hdivided : lineFields ("L" ++ " " ++ "BYTE" ++ " " ++ "c'a b'").toList = ["L", "BYTE", "c'a b'"] := by
    decide +kernel
  let load : Statement := ⟨"LDA", .opcode .lda, 0, 1, some "L", some "V,X", .instruction (some "V") true⟩
  let sign : Statement := ⟨"BYTE", .directive .byte, 0, 1, some "L", some "c'#'", .bytes [35]⟩
  let literal : Statement := ⟨"BYTE", .directive .byte, 0, 1, some "L", some "c'a b'", .bytes [97, 32, 98]⟩
  have hload : Statement.parse ["L", "LDA", "V,X"] 0 1 = .ok load := by decide +kernel
  have hsign : Statement.parse ["L", "BYTE", "c'#'"] 0 1 = .ok sign := by decide +kernel
  have hliteral : Statement.parse ["L", "BYTE", "c'a b'"] 0 1 = .ok literal := by decide +kernel
  obtain ⟨hsame, -⟩ := label_optional_iff hlabel (by decide) hindexed hload
  obtain ⟨hsame', -⟩ := label_optional_iff hlabel (by decide) hquoted hsign
  obtain ⟨-, hrefused⟩ := label_optional_iff hlabel (by decide) hdivided hliteral
  exact ⟨⟨load, hindexed ▸ hload, rfl, (hsame.mpr (by decide +kernel)).2⟩,
    ⟨sign, hquoted ▸ hsign, rfl, (hsame'.mpr (by decide +kernel)).2⟩, (hrefused (by decide +kernel)).2⟩

/-- A literal with a blank in it is read behind a label. Without one it is divided at the blank, and its first part
is taken for the operation. -/
theorem literal_with_blank_needs_label :
    isLabel "L" ∧ lineFields "L BYTE c'a b'".toList = ["L", "BYTE", "c'a b'"] ∧
    (∃ s, Statement.parse (lineFields "L BYTE c'a b'".toList) 0 1 = .ok s ∧ s.payload = .bytes [97, 32, 98]) ∧
    lineFields "BYTE c'a b'".toList = ["BYTE", "c'a", "b'"] ∧
    Statement.parse (lineFields "BYTE c'a b'".toList) 0 1 = .error (.unknownOperation 1 "c'a") := by
  have hparse : Statement.parse (lineFields "L BYTE c'a b'".toList) 0 1 =
      .ok ⟨"BYTE", .directive .byte, 0, 1, some "L", some "c'a b'", .bytes [97, 32, 98]⟩ := by decide +kernel
  exact ⟨by decide, by decide +kernel, ⟨_, hparse, rfl⟩, by decide +kernel, by decide +kernel⟩

end Tribyte
