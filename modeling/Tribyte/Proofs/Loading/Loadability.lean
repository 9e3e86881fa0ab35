import Mathlib.Control.Monad.Basic
import Tribyte.Proofs.Loading.Placement

/-! Where an assembled program can be loaded.

It has to fit the memory, and the base added to any symbolic address has to give an address that an instruction
can hold. Where one of the two fails, loading says so: a program that does not fit is refused before anything is
written, and otherwise the first statement in source order that overflows is named. No other error can occur
(`assembled_program_loadable_iff`). -/
namespace Tribyte

/-- The first statement that overflows. -/
theorem findSome?_overflow? {symbols : SymbolTable} {base : Nat} {ss : List Statement} {e : LoadError}
    (h : ss.findSome? (Statement.overflow? symbols base) = some e) :
    ∃ front s rest name indexed address, ss = front ++ s :: rest ∧ (∀ t ∈ front, t.Reaches symbols base) ∧
      s.payload = .instruction (some name) indexed ∧ symbols.address? name = some address ∧
      Instruction.greatestAddress < base + address ∧
      e = .relocationOverflow (base + s.location + 1) (base + address) Instruction.greatestAddress := by
  obtain ⟨front, s, rest, hss, hs, hfront⟩ := List.findSome?_eq_some_iff.mp h
  unfold Statement.overflow? at hs
  split at hs
  · rename_i name indexed hpayload
    split at hs
    · rename_i address haddress
      split at hs
      · rename_i hover
        cases hs
        exact ⟨front, s, rest, name, indexed, address, hss,
          fun t ht => Statement.overflow?_eq_none_iff.mp (hfront t ht), hpayload, haddress, hover, rfl⟩
      · cases hs
    · cases hs
  · cases hs

theorem load_programRecords_of_lt {l : Layout} {o : Outline} {m : Memory} {base : Nat}
    (hlarge : m.size < base + o.start + l.length) (entry : Nat) :
    load m (l.programRecords o entry) base =
      (.error (.tooLarge o.name (base + o.start + l.length) m.size), m) := by
  rw [Layout.programRecords, load, if_pos hlarge]

/-- Loading ends in one of three ways. -/
theorem Assembled.load_cases {text : String} {l : Layout} {o : Outline} {entry : Nat} (h : Assembled text l o entry)
    {m : Memory} (hsize : m.size < 0x100000000) (base : Nat) :
    (m.size < base + o.start + l.length ∧ load m (l.programRecords o entry) base =
      (.error (.tooLarge o.name (base + o.start + l.length) m.size), m)) ∨
    base + o.start + l.length ≤ m.size ∧
      ((∀ s ∈ o.body, s.Reaches l.symbols base) ∧
        (∃ program n, load m (l.programRecords o entry) base = (.ok program, n)) ∨
      ∃ front s rest name indexed address n, o.body = front ++ s :: rest ∧
        (∀ t ∈ front, t.Reaches l.symbols base) ∧
        s.payload = .instruction (some name) indexed ∧ l.symbols.address? name = some address ∧
        Instruction.greatestAddress < base + address ∧
        load m (l.programRecords o entry) base =
          (.error (.relocationOverflow (base + s.location + 1) (base + address) Instruction.greatestAddress), n)) := by
  rcases Nat.lt_or_ge m.size (base + o.start + l.length) with hlarge | hinside
  · exact .inl ⟨hlarge, load_programRecords_of_lt hlarge entry⟩
  refine .inr ⟨hinside, ?_⟩
  obtain ⟨hok, herror⟩ := h.placed (Nat.lt_of_le_of_lt hinside hsize) hinside
  cases hover : o.body.findSome? (Statement.overflow? l.symbols base) with
  | none =>
    obtain ⟨n, hplaced, -⟩ := hok hover
    refine .inl ⟨?_, _, n, (load_eq_ok_iff isContent_programRecords).mpr ⟨hinside, hplaced, rfl⟩⟩
    intro s hs
    exact Statement.overflow?_eq_none_iff.mp (List.findSome?_eq_none_iff.mp hover s hs)
  | some e =>
    obtain ⟨front, s, rest, name, indexed, address, hbody, hfront, hpayload, haddress, hfar, rfl⟩ :=
      findSome?_overflow? hover
    obtain ⟨n, hload⟩ := (herror _ hover).load_eq o.name hinside [.finish entry]
    exact .inr ⟨front, s, rest, name, indexed, address, n, hbody, hfront, hpayload, haddress, hfar, hload⟩

theorem Assembled.exists_load_iff {text : String} {l : Layout} {o : Outline} {entry : Nat}
    (h : Assembled text l o entry) {m : Memory} (hsize : m.size < 0x100000000) (base : Nat) :
    (∃ program n, load m (l.programRecords o entry) base = (.ok program, n)) ↔
      base + o.start + l.length ≤ m.size ∧ ∀ s ∈ o.body, s.Reaches l.symbols base := by
  rcases h.load_cases hsize base with ⟨hlarge, hload⟩ | ⟨hinside, ⟨hreaches, hload⟩ |
    ⟨front, s, rest, name, indexed, address, n, hbody, -, hpayload, haddress, hfar, hload⟩⟩
  · refine iff_of_false (by simp [hload]) ?_
    intro h
    omega
  · exact iff_of_true hload ⟨hinside, hreaches⟩
  · refine iff_of_false (by simp [hload]) ?_
    intro h
    have := h.2 s (by simp [hbody]) name indexed address hpayload haddress
    omega

/-- An assembled program can be loaded, as records or as an image, exactly where it fits the memory and all its
symbolic addresses stay within reach. -/
theorem assembled_program_loadable_iff {text : String} {records : List Record} (h : assemble text = .ok records) :
    ∃ layout outline image,
      Layout.ofLines (sourceLines text) = .ok layout ∧
      Outline.ofStatements layout.statements.toList = .ok outline ∧
      (∃ content, records = .header outline.name outline.start layout.length :: content) ∧
      encodeImage records = .ok image ∧
      ∀ memory base, memory.size < 0x100000000 →
        loadImage memory image base = load memory records base ∧
        ((∃ program after, load memory records base = (.ok program, after)) ↔
          base + outline.start + layout.length ≤ memory.size ∧
          ∀ s ∈ outline.body, s.Reaches layout.symbols base) ∧
        (memory.size < base + outline.start + layout.length →
          load memory records base =
            (.error (.tooLarge outline.name (base + outline.start + layout.length) memory.size), memory)) ∧
        (base + outline.start + layout.length ≤ memory.size →
          ¬(∀ s ∈ outline.body, s.Reaches layout.symbols base) →
          ∃ front s rest name indexed address after, outline.body = front ++ s :: rest ∧
            (∀ t ∈ front, t.Reaches layout.symbols base) ∧
            s.payload = .instruction (some name) indexed ∧ layout.symbols.address? name = some address ∧
            Instruction.greatestAddress < base + address ∧
            load memory records base =
              (.error (.relocationOverflow (base + s.location + 1) (base + address) Instruction.greatestAddress),
                after)) ∧
        ∀ e after, load memory records base = (.error e, after) →
          (∃ name terminal size, e = .tooLarge name terminal size) ∨
          ∃ address value limit, e = .relocationOverflow address value limit := by
  obtain ⟨layout, outline, entry, hassembled, rfl⟩ := assemble_eq_ok_iff.mp h
  obtain ⟨image, hencode, hdecode⟩ := hassembled.image
  refine ⟨layout, outline, image, hassembled.layout, hassembled.outline, ⟨_, rfl⟩, hencode, ?_⟩
  intro memory base hsize
  refine ⟨by rw [loadImage, hdecode], ?_⟩
  rcases hassembled.load_cases hsize base with
    ⟨hlarge, hload⟩ | ⟨hinside, ⟨hreaches, program, after, hload⟩ |
      ⟨front, s, rest, name, indexed, address, after, hbody, hfront, hpayload, haddress, hfar, hload⟩⟩
  · rw [hload]
    refine ⟨?_, fun _ => rfl, ?_, ?_⟩
    · simp only [Prod.mk.injEq, reduceCtorEq, false_and, exists_false, false_iff, not_and]
      intro hinside
      omega
    · intro hinside
      omega
    · intro e after he
      cases he
      exact .inl ⟨_, _, _, rfl⟩
  · rw [hload]
    refine ⟨?_, ?_, ?_, ?_⟩
    · exact iff_of_true ⟨program, after, rfl⟩ ⟨hinside, hreaches⟩
    · intro hlarge
      omega
    · intro _ hnot
      exact absurd hreaches hnot
    · intro e after he
      cases he
  · rw [hload]
    refine ⟨?_, ?_, ?_, ?_⟩
    · simp only [Prod.mk.injEq, reduceCtorEq, false_and, exists_false, false_iff, not_and]
      intro _ hreaches
      have := hreaches s (by simp [hbody]) name indexed address hpayload haddress
      omega
    · intro hlarge
      omega
    · intro _ _
      exact ⟨front, s, rest, name, indexed, address, after, hbody, hfront, hpayload, haddress, hfar, rfl⟩
    · intro e after he
      cases he
      exact .inr ⟨_, _, _, rfl⟩

/-- The first of two references is still within reach and the second is not, in a program that would fit. -/
theorem second_reference_overflows :
    ∃ layout outline image after,
      Layout.ofLines (sourceLines "P START 0000\n LDA A\nA NOP\n LDA B\nB RSUB\n END\n") = .ok layout ∧
      Outline.ofStatements layout.statements.toList = .ok outline ∧
      loadImage (Memory.zeroed 0x9000) image 0x7FFA = (.error (.relocationOverflow 0x8001 0x8003 0x7FFF), after) ∧
      0x7FFA + outline.start + layout.length ≤ 0x9000 ∧
      ¬∀ s ∈ outline.body, s.Reaches layout.symbols 0x7FFA := by
  have hassemble : assemble "P START 0000\n LDA A\nA NOP\n LDA B\nB RSUB\n END\n" =
      .ok [.header "P" 0 12, .text 0 [0, 3, 0, 23, 0, 0, 0, 9, 0, 19, 0, 0],
        .modification 1 2, .modification 7 2, .finish 0] := by decide +kernel
  obtain ⟨layout, outline, image, hlayout, houtline, ⟨content, hheader⟩, -, hall⟩ :=
    assembled_program_loadable_iff hassemble
  obtain ⟨himage, hiff, -⟩ := hall (Memory.zeroed 0x9000) 0x7FFA (by decide)
  have hfault : (load (Memory.zeroed 0x9000) [.header "P" 0 12, .text 0 [0, 3, 0, 23, 0, 0, 0, 9, 0, 19, 0, 0],
      .modification 1 2, .modification 7 2, .finish 0] 0x7FFA).1 =
        .error (.relocationOverflow 0x8001 0x8003 0x7FFF) := by decide +kernel
  obtain ⟨hheader, -⟩ := List.cons.inj hheader
  have hfits : 0x7FFA + outline.start + layout.length ≤ 0x9000 := by
    obtain ⟨-, hstart, hlength⟩ := Record.header.inj hheader
    omega
  refine ⟨layout, outline, image, _, hlayout, houtline, himage.trans (Prod.ext hfault rfl), hfits, ?_⟩
  intro hreaches
  obtain ⟨program, after, hload⟩ := hiff.mpr ⟨hfits, hreaches⟩
  rw [hload] at hfault
  cases hfault

end Tribyte
