import Tribyte.Proofs.Assembly.ObjectProgram

/-! Where symbols point.

A label has the location of its statement, so it points into the program or right behind it. The one exception is the
program's name: START moves the location counter after its own label has taken the address, so the name stands for
zero wherever the program starts (`Layout.Outlined.resolves`). Addresses in the object code are those of the symbols
(`symbols_point_into_program`). -/
namespace Tribyte

namespace Layout

/-- The program's name stands for zero, any other symbol for an address of the program or the one behind it. -/
def Resolves (l : Layout) (o : Outline) (name : String) (address : Nat) : Prop :=
  if name = o.name then address = 0 else o.start ≤ address ∧ address ≤ o.start + l.length

namespace Outlined

variable {l : Layout} {o : Outline} (h : l.Outlined o)
include h

theorem address?_name : l.symbols.address? o.name = some 0 := by
  obtain ⟨first, hss, hfirst, hzero, -⟩ := h.locations
  have hmem : first ∈ l.statements.toList := by
    rw [hss]
    exact List.mem_cons_self ..
  exact (h.sound.symbols o.name 0).mpr ⟨first, hmem, (h.sound.wellFormed first hmem).name _ _ hfirst, hzero⟩

theorem resolves {name : String} {address : Nat} (ha : l.symbols.address? name = some address) :
    l.Resolves o name address := by
  unfold Resolves
  split
  · rename_i hname
    rw [hname, h.address?_name] at ha
    exact (Option.some.inj ha).symm
  · rename_i hname
    obtain ⟨s, hs, hlabel, rfl⟩ := (h.sound.symbols name address).mp ha
    obtain ⟨first, hss, hfirst, -, -, hlast⟩ := h.locations
    have hwf := h.sound.wellFormed s hs
    rw [hss] at hs
    -- The statement is START, one of the body, or END.
    rcases List.mem_cons.mp hs with rfl | hs
    · exact absurd (Option.some.inj (hlabel.symm.trans (hwf.name _ _ hfirst))) hname
    rcases List.mem_append.mp hs with hs | hs
    · have := h.mem_range hs
      omega
    · rw [List.mem_singleton.mp hs, hlast, ← h.length_eq]
      omega

end Outlined

end Layout

theorem Statement.entry_of_label {symbols : SymbolTable} {s : Statement} {name : String} {literal : Option Nat}
    {address : Nat} (hpayload : s.payload = .finish (some name) literal) (ha : symbols.address? name = some address) :
    s.entry symbols = .ok address := by
  rw [entry, hpayload]
  simp only [Option.bind_some, ha]

/-- A symbolic operand stands in a text record as its symbol's address. -/
theorem Assembled.exists_symbolic_code {text : String} {l : Layout} {o : Outline} {entry : Nat} {s : Statement}
    {op : Opcode} {name : String} {indexed : Bool} (h : Assembled text l o entry) (hs : s ∈ o.body)
    (hoperation : s.operation = .opcode op) (hpayload : s.payload = .instruction (some name) indexed) :
    ∃ (address : Nat) (t : Memory.Segment), l.symbols.address? name = some address ∧ address ≤ 0x7FFF ∧
      .text t.address t.bytes ∈ l.programRecords o entry ∧
      t.Holds ⟨s.location, Instruction.pack op.code address indexed⟩ := by
  have hcode := Statement.hasCode_of_instruction hpayload
  obtain ⟨b, hb, hholds⟩ := h.exists_block hs hcode
  have hrecord : textRecord b (b.map (Statement.code l.symbols)) ∈ l.programRecords o entry :=
    List.mem_cons_of_mem _ (List.mem_append_left _ (List.mem_append_left _ (List.mem_map_of_mem hb)))
  have hcoded := h.coded s hs hcode
  generalize s.code l.symbols = c at hcoded hholds
  cases hcoded with
  | symbolic hoperation' hpayload' haddress hbound =>
    cases hoperation.symm.trans hoperation'
    cases hpayload.symm.trans hpayload'
    exact ⟨_, blockSegment l.symbols b, haddress, hbound, hrecord, hholds⟩
  | plain _ hpayload' | word hpayload' | bytes hpayload' => cases hpayload.symm.trans hpayload'

/-- In a text that assembles, every symbol but the program's name has an address in the program or right behind it, and
the program's name has address zero. The addresses of symbolic operands, and of an END that names a label, are these:
each operand is emitted with its symbol's address, of which nothing is cut off. -/
theorem symbols_point_into_program {text : String} {records : List Record} (h : assemble text = .ok records) :
    ∃ layout outline entry,
      Layout.ofLines (sourceLines text) = .ok layout ∧
      Outline.ofStatements layout.statements.toList = .ok outline ∧
      records.head? = some (.header outline.name outline.start layout.length) ∧
      records.getLast? = some (.finish entry) ∧
      layout.symbols.address? outline.name = some 0 ∧
      (∀ name address, layout.symbols.address? name = some address → layout.Resolves outline name address) ∧
      (∀ s ∈ outline.body, ∀ op name indexed, s.operation = .opcode op → s.payload = .instruction (some name) indexed →
        ∃ (address : Nat) (t : Memory.Segment), layout.symbols.address? name = some address ∧ address ≤ 0x7FFF ∧
          layout.Resolves outline name address ∧ .text t.address t.bytes ∈ records ∧
          t.Holds ⟨s.location, Instruction.pack op.code address indexed⟩) ∧
      (∀ name literal, outline.last.payload = .finish (some name) literal → layout.symbols.address? name ≠ none →
        layout.symbols.address? name = some entry ∧ layout.Resolves outline name entry) := by
  obtain ⟨layout, outline, entry, hassembled, rfl⟩ := assemble_eq_ok_iff.mp h
  have houtlined := hassembled.outlined
  refine ⟨layout, outline, entry, hassembled.layout, hassembled.outline, rfl, ?_, houtlined.address?_name,
    fun name address => houtlined.resolves, ?_, ?_⟩
  · rw [Layout.programRecords, ← List.cons_append, List.getLast?_concat]
  · intro s hs op name indexed hoperation hpayload
    obtain ⟨address, t, ha, hbound, ht, hholds⟩ := hassembled.exists_symbolic_code hs hoperation hpayload
    exact ⟨address, t, ha, hbound, houtlined.resolves ha, ht, hholds⟩
  · intro name literal hpayload hdefined
    obtain ⟨address, ha⟩ := Option.ne_none_iff_exists'.mp hdefined
    have hentry := Statement.entry_of_label hpayload ha
    rw [hassembled.entry] at hentry
    cases hentry
    exact ⟨ha, houtlined.resolves ha⟩

/-- A word behind the code that uses it, and a start that is a label. The operand of LDA is emitted as the word's
address. -/
theorem forward_reference_points_into_program :
    ∃ records layout outline,
      assemble "P START 1000\nA LDA B\nB WORD 7\n END A\n" = .ok records ∧
      records = [.header "P" 0x1000 6, .text 0x1000 [0, 3, 16, 7, 0, 0], .modification 0x1001 2, .finish 0x1000] ∧
      Layout.ofLines (sourceLines "P START 1000\nA LDA B\nB WORD 7\n END A\n") = .ok layout ∧
      Outline.ofStatements layout.statements.toList = .ok outline ∧ outline.name = "P" ∧
      outline.start = 0x1000 ∧ layout.length = 6 ∧
      (∀ name address, layout.symbols.address? name = some address → layout.Resolves outline name address) ∧
      ∃ s ∈ outline.body, s.operation = .opcode .lda ∧ s.payload = .instruction (some "B") false ∧
        layout.symbols.address? "B" = some 0x1003 ∧
        ∃ t : Memory.Segment, .text t.address t.bytes ∈ records ∧
          t.Holds ⟨s.location, Instruction.pack Opcode.lda.code 0x1003 false⟩ := by
  have hassemble : assemble "P START 1000\nA LDA B\nB WORD 7\n END A\n" =
      .ok [.header "P" 0x1000 6, .text 0x1000 [0, 3, 16, 7, 0, 0], .modification 0x1001 2, .finish 0x1000] := by
    decide +kernel
  have hlaidOut : laidOut "P START 1000\nA LDA B\nB WORD 7\n END A\n" fun l o =>
      l.symbols.address? "B" = some 0x1003 ∧
        ∃ s ∈ o.body, s.operation = .opcode .lda ∧ s.payload = .instruction (some "B") false := by decide +kernel
  obtain ⟨layout, outline, entry, hlayout, houtline, hheader, -, -, hresolves, hoperands, -⟩ :=
    symbols_point_into_program hassemble
  obtain ⟨layout', outline', hlayout', houtline', hcheck⟩ := exists_of_laidOut hlaidOut
  cases hlayout.symm.trans hlayout'
  cases houtline.symm.trans houtline'
  obtain ⟨hb, s, hs, hoperation, hpayload⟩ := of_decide_eq_true hcheck
  obtain ⟨hname, hstart, hlength⟩ : "P" = outline.name ∧ 0x1000 = outline.start ∧ 6 = layout.length := by
    simpa using hheader
  obtain ⟨address, t, haddress, -, -, ht, hholds⟩ := hoperands s hs .lda "B" false hoperation hpayload
  cases hb.symm.trans haddress
  exact ⟨_, layout, outline, hassemble, rfl, hlayout, houtline, hname.symm, hstart.symm, hlength.symm, hresolves,
    s, hs, hoperation, hpayload, hb, t, ht, hholds⟩

/-- An instruction that refers to the program by its name refers to address zero, far below the program. -/
theorem program_name_points_below_program :
    assemble "P START 1000\n LDA P\n END\n" =
      .ok [.header "P" 0x1000 3, .text 0x1000 [0, 0, 0], .modification 0x1001 2, .finish 0] ∧
    ∃ layout outline, Layout.ofLines (sourceLines "P START 1000\n LDA P\n END\n") = .ok layout ∧
      Outline.ofStatements layout.statements.toList = .ok outline ∧
      ∃ address, layout.symbols.address? "P" = some address ∧ address < outline.start := by
  refine ⟨by decide +kernel, ?_⟩
  have hlaidOut : laidOut "P START 1000\n LDA P\n END\n" fun l o =>
      l.symbols.address? "P" = some 0 ∧ 0 < o.start := by decide +kernel
  obtain ⟨layout, outline, hlayout, houtline, hcheck⟩ := exists_of_laidOut hlaidOut
  obtain ⟨haddress, hbelow⟩ := of_decide_eq_true hcheck
  exact ⟨layout, outline, hlayout, houtline, 0, haddress, hbelow⟩

end Tribyte
