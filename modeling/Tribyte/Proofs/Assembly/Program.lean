import Tribyte.Assembly.ObjectCode
import Tribyte.Proofs.Assembly.Blocks
import Tribyte.Proofs.Object.RoundTrip

/-! The parts of a program that assembles.

`Layout.Outlined` says how the statements between START and END lie in the address space, and
`records_eq_ok_iff` which records they become. Those records always have an image, and it gives them back
(`Assembled.image`). -/
namespace Tribyte

/-! ### Outlines -/

theorem Outline.ofStatements_eq_ok {ss : List Statement} {o : Outline} (h : ofStatements ss = .ok o) :
    ∃ first, ss = first :: (o.body ++ [o.last]) ∧ first.payload = .start o.name o.start ∧
      o.last.operation = .directive .finish ∧ ∀ s ∈ o.body, isBoundary s = false := by
  unfold ofStatements at h
  split at h
  · rename_i first second third rest
    dsimp only at h
    split at h
    · rename_i name start hpayload
      split at h
      · cases h
      · rename_i hlast
        split at h
        · cases h
        · rename_i hbody
          cases h
          refine ⟨first, ?_, hpayload, Classical.not_not.mp hlast, ?_⟩
          · have hjoin := List.dropLast_concat_getLast (List.cons_ne_nil second (third :: rest))
            rw [List.getLast_cons (List.cons_ne_nil third rest)] at hjoin
            rw [hjoin]
          · intro s hs
            exact Bool.eq_false_iff.mpr (List.find?_eq_none.mp hbody s hs)
    · cases h
  · cases h

theorem Outline.isBoundary_eq_false {s : Statement} (h : isBoundary s = false) :
    s.operation ≠ .directive .start ∧ s.operation ≠ .directive .finish := by
  simpa [isBoundary] using h

namespace Layout

/-- A layout and the program between its START and its END. -/
structure Outlined (l : Layout) (o : Outline) : Prop where
  sound : l.Sound
  statements : ∃ first, l.statements.toList = first :: (o.body ++ [o.last]) ∧
    first.payload = .start o.name o.start
  last : o.last.operation = .directive .finish
  interior : ∀ s ∈ o.body, Outline.isBoundary s = false

theorem outlined {l : Layout} {o : Outline} (hl : l.Sound)
    (h : Outline.ofStatements l.statements.toList = .ok o) : l.Outlined o := by
  obtain ⟨first, hss, hpayload, hlast, hbody⟩ := Outline.ofStatements_eq_ok h
  exact ⟨hl, ⟨first, hss, hpayload⟩, hlast, hbody⟩

namespace Outlined

variable {l : Layout} {o : Outline} (h : l.Outlined o)
include h

theorem mem_statements {s : Statement} (hs : s ∈ o.body) : s ∈ l.statements.toList := by
  obtain ⟨first, hss, -⟩ := h.statements
  rw [hss]
  exact List.mem_cons_of_mem first (List.mem_append_left _ hs)

theorem wellFormed {s : Statement} (hs : s ∈ o.body) : s.WellFormed :=
  h.sound.wellFormed s (h.mem_statements hs)

theorem last_wellFormed : o.last.WellFormed := by
  obtain ⟨first, hss, -⟩ := h.statements
  apply h.sound.wellFormed
  rw [hss]
  exact List.mem_cons_of_mem first (List.mem_append_right _ (List.mem_singleton_self _))

theorem startOr_body {s : Statement} (hs : s ∈ o.body) (address : Nat) : s.startOr address = address :=
  s.startOr_of_operation (h.wellFormed hs) (Outline.isBoundary_eq_false (h.interior s hs)).1 address

theorem startOr_last (address : Nat) : o.last.startOr address = address :=
  o.last.startOr_of_operation h.last_wellFormed (by rw [h.last]; simp) address

theorem last_size : o.last.size = 0 := by
  have hsuits := h.last_wellFormed.suits
  rw [h.last] at hsuits
  obtain ⟨symbol, address, hpayload, -⟩ := hsuits.finish
  rw [Statement.size, hpayload]
  rfl

theorem sized {s : Statement} (hs : s ∈ o.body) : s.following = s.location + s.size :=
  h.startOr_body hs _

theorem start_eq : l.start = o.start := by
  obtain ⟨first, hss, hfirst⟩ := h.statements
  rw [h.sound.start, startAddress, hss, List.foldl_cons, List.foldl_append,
    foldl_startOr fun s hs => h.startOr_body hs, List.foldl_cons, h.startOr_last, List.foldl_nil, Statement.startOr,
    hfirst]

/-- START stands at zero, the body from the start address up to the location counter, and END at the counter. -/
theorem locations : ∃ first, l.statements.toList = first :: (o.body ++ [o.last]) ∧
    first.payload = .start o.name o.start ∧ first.location = 0 ∧ Consecutive o.start o.body l.counter ∧
    o.last.location = l.counter := by
  obtain ⟨first, hss, hfirst⟩ := h.statements
  have hall := h.sound.consecutive
  rw [hss] at hall
  obtain ⟨hzero, hrest⟩ := hall
  obtain ⟨middle, hbody, rfl, hlast⟩ := consecutive_append.mp hrest
  have hstart : first.following = o.start := by
    rw [Statement.following, Statement.startOr, hfirst]
  have hcounter : o.last.location = l.counter := by
    rw [← hlast, Statement.following, h.startOr_last, h.last_size, Nat.add_zero]
  rw [hstart, hcounter] at hbody
  exact ⟨first, hss, hfirst, hzero, hbody, hcounter⟩

theorem consecutive_counter : Consecutive o.start o.body l.counter := by
  obtain ⟨_, -, -, -, hbody, -⟩ := h.locations
  exact hbody

theorem length_eq : o.start + l.length = l.counter := by
  have hle : o.start ≤ l.counter := h.consecutive_counter.le fun s hs => h.sized hs
  have hlength := h.sound.length_of_le (h.start_eq ▸ hle)
  rw [h.start_eq] at hlength
  omega

/-- The program fills the addresses from its start, statement after statement. -/
theorem consecutive : Consecutive o.start o.body (o.start + l.length) := by
  rw [h.length_eq]
  exact h.consecutive_counter

theorem bounded : o.start + l.length ≤ Word.greatest := by
  rw [h.length_eq]
  exact h.sound.bounded

theorem mem_range {s : Statement} (hs : s ∈ o.body) :
    o.start ≤ s.location ∧ s.location + s.size ≤ o.start + l.length :=
  h.consecutive.mem_range (fun _ ht => h.sized ht) hs

/-- Each statement ends before the later ones begin, whichever are left out. -/
theorem pairwise_filter (p : Statement → Bool) :
    (o.body.filter p).Pairwise fun s t => s.location + s.size ≤ t.location :=
  (h.consecutive.pairwise fun _ hs => h.sized hs).filter p

theorem apart {s t : Statement} (hs : s ∈ o.body) (ht : t ∈ o.body) :
    s = t ∨ s.location + s.size ≤ t.location ∨ t.location + t.size ≤ s.location :=
  h.consecutive.apart (fun _ hu => h.sized hu) hs ht

end Outlined

end Layout

/-! ### Object code -/

/-- The forms of object code. -/
inductive Coded (symbols : SymbolTable) (s : Statement) : ObjectCode → Prop
  | plain {op : Opcode} {indexed : Bool} (hoperation : s.operation = .opcode op)
      (hpayload : s.payload = .instruction none indexed) : Coded symbols s ⟨Instruction.pack op.code 0 indexed, none⟩
  | symbolic {op : Opcode} {name : String} {indexed : Bool} {address : Nat} (hoperation : s.operation = .opcode op)
      (hpayload : s.payload = .instruction (some name) indexed) (haddress : symbols.address? name = some address)
      (hbound : address ≤ Instruction.greatestAddress) :
      Coded symbols s ⟨Instruction.pack op.code address indexed, some (s.location + 1)⟩
  | word {value : Nat} (hpayload : s.payload = .word value) : Coded symbols s ⟨LittleEndian.encode 3 value, none⟩
  | bytes {bs : List UInt8} (hpayload : s.payload = .bytes bs) : Coded symbols s ⟨bs, none⟩

namespace Statement

variable {symbols : SymbolTable} {s : Statement} {c : ObjectCode}

theorem objectCode_eq_ok_iff : s.objectCode symbols = .ok c ↔ Coded symbols s c := by
  constructor
  · intro h
    unfold objectCode at h
    split at h
    · rename_i hoperation hpayload
      cases h
      exact .plain hoperation hpayload
    · rename_i hoperation hpayload
      split at h
      · cases h
      · rename_i haddress
        split at h
        · cases h
        · cases h
          exact .symbolic hoperation hpayload haddress (Nat.le_of_not_lt ‹_›)
    · rename_i hpayload
      cases h
      exact .word hpayload
    · rename_i hpayload
      cases h
      exact .bytes hpayload
    · cases h
  · intro h
    cases h with
    | plain hoperation hpayload => rw [objectCode, hoperation, hpayload]
    | symbolic hoperation hpayload haddress hbound =>
      rw [objectCode, hoperation, hpayload]
      simp only [haddress]
      rw [if_neg (Nat.not_lt.mpr hbound)]
    | word hpayload =>
      rw [objectCode, hpayload]
      split <;> simp_all
    | bytes hpayload =>
      rw [objectCode, hpayload]
      split <;> simp_all

theorem hasCode_of_instruction {symbol : Option String} {indexed : Bool} (h : s.payload = .instruction symbol indexed) :
    s.hasCode := by
  rw [hasCode, h]
  rfl

theorem size_of_instruction {symbol : Option String} {indexed : Bool} (h : s.payload = .instruction symbol indexed) :
    s.size = Instruction.size := by
  rw [size, h, Payload.size]

theorem length_of_coded (h : Coded symbols s c) : c.bytes.length = s.size := by
  cases h with
  | plain _ hpayload => rw [size_of_instruction hpayload, Instruction.length_pack]
  | symbolic _ hpayload => rw [size_of_instruction hpayload, Instruction.length_pack]
  | word hpayload => rw [size, hpayload, LittleEndian.length_encode, Payload.size]
  | bytes hpayload => rw [size, hpayload, Payload.size]

theorem hasCode_of_coded (h : Coded symbols s c) : s.hasCode := by
  cases h with
  | plain _ hpayload | symbolic _ hpayload | word hpayload | bytes hpayload =>
    rw [hasCode, hpayload]
    rfl

/-- The object code of a statement that has some. -/
def code (symbols : SymbolTable) (s : Statement) : ObjectCode :=
  match s.objectCode symbols with
  | .ok c => c
  | .error _ => ⟨[], none⟩

theorem code_eq (h : s.objectCode symbols = .ok c) : s.code symbols = c := by
  rw [code, h]

end Statement

namespace Layout

/-- The records of a program whose execution starts at `entry`. -/
def programRecords (l : Layout) (o : Outline) (entry : Nat) : List Record :=
  .header o.name o.start l.length ::
    ((blocks o.body).map (fun b => textRecord b (b.map (Statement.code l.symbols)))
      ++ fixupRecords ((o.body.filter Statement.hasCode).map (Statement.code l.symbols)) ++ [.finish entry])

theorem mapM_objectCode_eq_ok_iff {symbols : SymbolTable} {bs : List (List Statement)}
    {codes : List (List ObjectCode)} :
    bs.mapM (fun b => b.mapM (Statement.objectCode symbols)) = .ok codes ↔
      (∀ s ∈ bs.flatten, Coded symbols s (s.code symbols)) ∧
        bs.map (fun b => b.map (Statement.code symbols)) = codes := by
  have hinner (b : List Statement) (cs : List ObjectCode) : b.mapM (Statement.objectCode symbols) = .ok cs ↔
      (∀ s ∈ b, Coded symbols s (s.code symbols)) ∧ b.map (Statement.code symbols) = cs := by
    rw [Checked.mapM_eq_ok_iff Statement.code_eq]
    simp only [Statement.objectCode_eq_ok_iff]
  rw [Checked.mapM_eq_ok_iff fun h => ((hinner _ _).mp h).2]
  simp only [hinner, and_true, List.mem_flatten]
  constructor
  · intro h
    obtain ⟨hall, hcodes⟩ := h
    refine ⟨?_, hcodes⟩
    intro s hs
    obtain ⟨b, hb, hs⟩ := hs
    exact hall b hb s hs
  · intro h
    obtain ⟨hall, hcodes⟩ := h
    exact ⟨fun b hb s hs => hall s ⟨b, hb, hs⟩, hcodes⟩

theorem records_eq_ok_iff {l : Layout} {records : List Record} :
    l.records = .ok records ↔ ∃ o entry, Outline.ofStatements l.statements.toList = .ok o ∧
      (∀ s ∈ o.body, s.hasCode → Coded l.symbols s (s.code l.symbols)) ∧
      o.last.entry l.symbols = .ok entry ∧ l.programRecords o entry = records := by
  simp only [Layout.records, Checked.bind_eq_ok_iff, mapM_objectCode_eq_ok_iff, flatten_blocks, List.mem_filter,
    and_imp]
  constructor
  · intro h
    obtain ⟨o, ho, _, ⟨hcoded, rfl⟩, entry, hentry, hrecords⟩ := h
    refine ⟨o, entry, ho, hcoded, hentry, ?_⟩
    cases hrecords
    rw [programRecords, List.zipWith_map_right, List.zipWith_self, ← flatten_blocks, List.map_flatten]
    rfl
  · intro h
    obtain ⟨o, entry, ho, hcoded, hentry, rfl⟩ := h
    refine ⟨o, ho, _, ⟨hcoded, rfl⟩, entry, hentry, ?_⟩
    rw [programRecords, List.zipWith_map_right, List.zipWith_self, ← flatten_blocks, List.map_flatten]
    rfl

end Layout

/-- What assembly finds in a source text: its layout, its outline and where execution starts. -/
structure Assembled (text : String) (l : Layout) (o : Outline) (entry : Nat) : Prop where
  layout : Layout.ofLines (sourceLines text) = .ok l
  outline : Outline.ofStatements l.statements.toList = .ok o
  coded : ∀ s ∈ o.body, s.hasCode → Coded l.symbols s (s.code l.symbols)
  entry : o.last.entry l.symbols = .ok entry

theorem assemble_eq_ok_iff {text : String} {records : List Record} :
    assemble text = .ok records ↔ ∃ l o entry, Assembled text l o entry ∧ l.programRecords o entry = records := by
  rw [assemble, Checked.bind_eq_ok_iff]
  simp only [Layout.records_eq_ok_iff]
  constructor
  · intro h
    obtain ⟨l, hl, o, entry, ho, hcoded, hentry, hrecords⟩ := h
    exact ⟨l, o, entry, ⟨hl, ho, hcoded, hentry⟩, hrecords⟩
  · intro h
    obtain ⟨l, o, entry, ⟨hl, ho, hcoded, hentry⟩, hrecords⟩ := h
    exact ⟨l, hl, o, entry, ho, hcoded, hentry, hrecords⟩

theorem Assembled.of_assemble {text : String} {records : List Record} {l : Layout} {o : Outline}
    (h : assemble text = .ok records) (hl : Layout.ofLines (sourceLines text) = .ok l)
    (ho : Outline.ofStatements l.statements.toList = .ok o) :
    ∃ entry, Assembled text l o entry ∧ l.programRecords o entry = records := by
  obtain ⟨l', o', entry, hassembled, hrecords⟩ := assemble_eq_ok_iff.mp h
  cases hl.symm.trans hassembled.layout
  cases ho.symm.trans hassembled.outline
  exact ⟨entry, hassembled, hrecords⟩

theorem Assembled.outlined {text : String} {l : Layout} {o : Outline} {entry : Nat} (h : Assembled text l o entry) :
    l.Outlined o :=
  Layout.outlined (Layout.sound_ofLines h.layout) h.outline

/-! ### Given texts -/

/-- Whether the layout and the outline of a text have this property. -/
def laidOut (text : String) (P : Layout → Outline → Bool) : Bool :=
  match Layout.ofLines (sourceLines text) with
  | .error _ => false
  | .ok l =>
    match Outline.ofStatements l.statements.toList with
    | .error _ => false
    | .ok o => P l o

theorem exists_of_laidOut {text : String} {P : Layout → Outline → Bool} (h : laidOut text P) :
    ∃ l o, Layout.ofLines (sourceLines text) = .ok l ∧ Outline.ofStatements l.statements.toList = .ok o ∧ P l o := by
  unfold laidOut at h
  split at h
  · cases h
  · rename_i l hl
    split at h
    · cases h
    · rename_i o ho
      exact ⟨l, o, hl, ho, h⟩

/-! ### The image -/

theorem Statement.WellFormed.size_bounds {s : Statement} (hs : s.WellFormed) (hcode : s.hasCode) :
    1 ≤ s.size ∧ s.size ≤ blockSize := by
  have hsuits := hs.suits
  unfold Statement.hasCode Payload.hasCode at hcode
  unfold Statement.size Payload.size
  split at hcode
  · decide
  · decide
  · rename_i bs hpayload
    rw [hpayload] at hsuits
    exact hsuits.of_bytes
  all_goals cases hcode

theorem length_flatMap_code {symbols : SymbolTable} {b : List Statement}
    (hcoded : ∀ s ∈ b, Coded symbols s (s.code symbols)) :
    ((b.map (Statement.code symbols)).flatMap ObjectCode.bytes).length = totalSize b := by
  induction b with
  | nil => rfl
  | cons s rest ih =>
    rw [List.map_cons, List.flatMap_cons, List.length_append,
      ih fun t ht => hcoded t (List.mem_cons_of_mem s ht),
      Statement.length_of_coded (hcoded s (List.mem_cons_self ..)), totalSize]

theorem Coded.fixup_eq {symbols : SymbolTable} {s : Statement} {c : ObjectCode} {address : Nat}
    (h : Coded symbols s c) (hfixup : c.fixup = some address) :
    address = s.location + 1 ∧ s.size = Instruction.size := by
  cases h with
  | symbolic _ hpayload =>
    cases hfixup
    exact ⟨rfl, Statement.size_of_instruction hpayload⟩
  | plain | word | bytes => cases hfixup

theorem mem_blocks {symbols : SymbolTable} {ss b : List Statement}
    (hcoded : ∀ s ∈ ss, s.hasCode → Coded symbols s (s.code symbols)) (hb : b ∈ blocks ss)
    {s : Statement} (hs : s ∈ b) : s ∈ ss ∧ Coded symbols s (s.code symbols) := by
  obtain ⟨hss, hcode⟩ := List.mem_filter.mp (mem_filter_of_mem_blocks hb hs)
  exact ⟨hss, hcoded s hss hcode⟩

theorem mem_fixupRecords {codes : List ObjectCode} {r : Record} :
    r ∈ fixupRecords codes ↔ ∃ c ∈ codes, ∃ address, c.fixup = some address ∧ .modification address 2 = r := by
  simp only [fixupRecords, List.mem_filterMap, Option.map_eq_some_iff]

/-- The records of a program: header, blocks, symbolic addresses, end. -/
theorem mem_programRecords {l : Layout} {o : Outline} {entry : Nat} {r : Record} (hr : r ∈ l.programRecords o entry) :
    r = .header o.name o.start l.length ∨
    (∃ b ∈ blocks o.body, r = textRecord b (b.map (Statement.code l.symbols))) ∨
    (∃ s ∈ o.body, s.hasCode ∧ ∃ address, (s.code l.symbols).fixup = some address ∧ .modification address 2 = r) ∨
    r = .finish entry := by
  rcases List.mem_cons.mp hr with hr | hr
  · exact .inl hr
  rcases List.mem_append.mp hr with hr | hr
  · rcases List.mem_append.mp hr with hr | hr
    · obtain ⟨b, hb, rfl⟩ := List.mem_map.mp hr
      exact .inr (.inl ⟨b, hb, rfl⟩)
    · obtain ⟨c, hc, hr⟩ := mem_fixupRecords.mp hr
      obtain ⟨s, hs, rfl⟩ := List.mem_map.mp hc
      obtain ⟨hbody, hcode⟩ := List.mem_filter.mp hs
      exact .inr (.inr (.inl ⟨s, hbody, hcode, hr⟩))
  · exact .inr (.inr (.inr (List.mem_singleton.mp hr)))

namespace Layout.Outlined

variable {l : Layout} {o : Outline} (h : l.Outlined o)
include h

theorem isLabel_name : isLabel o.name := by
  obtain ⟨first, hss, hfirst⟩ := h.statements
  have hwf := h.sound.wellFormed first (by rw [hss]; exact List.mem_cons_self ..)
  exact hwf.label _ (hwf.name _ _ hfirst)

theorem symbol_le {name : String} {address : Nat} (ha : l.symbols.address? name = some address) :
    address ≤ Word.greatest := by
  obtain ⟨s, hs, -, rfl⟩ := (h.sound.symbols name address).mp ha
  exact h.sound.located s hs

/-- Execution starts at a label or at an address of four digits. -/
theorem entry_cases {entry : Nat} (he : o.last.entry l.symbols = .ok entry) :
    (∃ name, l.symbols.address? name = some entry) ∨ entry ≤ 0xFFFF := by
  have hsuits := h.last_wellFormed.suits
  rw [h.last] at hsuits
  obtain ⟨symbol, address, hpayload, haddress⟩ := hsuits.finish
  rw [Statement.entry, hpayload] at he
  dsimp only at he
  split at he
  · rename_i hlabel
    cases he
    obtain ⟨name, -, hname⟩ := Option.bind_eq_some_iff.mp hlabel
    exact .inl ⟨name, hname⟩
  · split at he
    · cases he
      exact .inr (haddress _ rfl)
    · cases he
    · cases he
      exact .inr (Nat.zero_le _)

theorem entry_le {entry : Nat} (he : o.last.entry l.symbols = .ok entry) : entry ≤ Word.greatest := by
  rcases h.entry_cases he with ⟨name, hname⟩ | hle
  · exact h.symbol_le hname
  · exact Nat.le_trans hle (by decide)

theorem fits (hcoded : ∀ s ∈ o.body, s.hasCode → Coded l.symbols s (s.code l.symbols)) {entry : Nat}
    (he : o.last.entry l.symbols = .ok entry) : ∀ r ∈ l.programRecords o entry, r.Fits := by
  have hbound := h.bounded
  intro r hr
  rcases mem_programRecords hr with rfl | ⟨b, hb, rfl⟩ | ⟨s, hs, hcode, address, haddress, rfl⟩ | rfl
  · exact ⟨length_encode_label h.isLabel_name, by omega, by omega⟩
  · refine ⟨?_, ?_⟩
    · cases b with
      | nil => exact Nat.zero_le _
      | cons s rest =>
        have := h.mem_range (mem_blocks hcoded hb (List.mem_cons_self ..)).1
        show s.location ≤ Word.greatest
        omega
    · rw [length_flatMap_code fun s hs => (mem_blocks hcoded hb hs).2]
      exact totalSize_block (fun s hs hcode => ((h.wellFormed hs).size_bounds hcode).2) hb
  · obtain ⟨rfl, hsize⟩ := (hcoded s hs hcode).fixup_eq haddress
    have := h.mem_range hs
    rw [hsize, Instruction.size] at this
    show s.location + 1 ≤ Word.greatest
    omega
  · exact h.entry_le he

theorem readBack (entry : Nat) : (l.programRecords o entry).map Record.readBack = l.programRecords o entry := by
  refine (List.map_congr_left ?_).trans (List.map_id _)
  intro r hr
  rcases mem_programRecords hr with rfl | ⟨b, -, rfl⟩ | ⟨s, -, -, address, -, rfl⟩ | rfl
  · show Record.header _ _ _ = Record.header _ _ _
    rw [takeWhile_label h.isLabel_name]
  · rfl
  · rfl
  · rfl

end Layout.Outlined

/-- The records of a program have an image, which gives them back. -/
theorem Assembled.image {text : String} {l : Layout} {o : Outline} {entry : Nat} (h : Assembled text l o entry) :
    ∃ image, encodeImage (l.programRecords o entry) = .ok image ∧ decodeImage image = l.programRecords o entry := by
  have hfits := h.outlined.fits h.coded h.entry
  refine ⟨_, encodeImage_eq_ok_iff.mpr ⟨hfits, rfl⟩, ?_⟩
  rw [decodeImage_flatMap_wire hfits, h.outlined.readBack]

end Tribyte
