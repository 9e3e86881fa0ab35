import Mathlib.Control.Monad.Basic
import Tribyte.Proofs.Assembly.Program
import Tribyte.Proofs.Loading.Replay

/-! Where a loaded program stands in memory.

Text records put the object code of every statement in place (`laid_texts`), and modification records add the
base to its symbolic addresses or overflow (`Relocating.run`), each by a step that touches one statement alone
(`Relocating.step`). So every statement of a loaded program stands where its location says (`Loaded.stands`, `assembled_program_stands`). -/
namespace Tribyte

namespace Statement

/-- The bytes of a statement once `delta` is added to its symbolic address. -/
def shifted (symbols : SymbolTable) (delta : Nat) (s : Statement) : List UInt8 :=
  match s.operation, s.payload with
  | .opcode op, .instruction (some name) indexed =>
    Instruction.pack op.code (delta + (symbols.address? name).getD 0) indexed
  | _, _ => (s.code symbols).bytes

/-- Those bytes in a program that is loaded at `base`. -/
def segment (symbols : SymbolTable) (base delta : Nat) (s : Statement) : Memory.Segment :=
  ⟨base + s.location, s.shifted symbols delta⟩

variable {symbols : SymbolTable} {s : Statement}

theorem shifted_symbolic {op : Opcode} {name : String} {indexed : Bool} {address : Nat}
    (hoperation : s.operation = .opcode op) (hpayload : s.payload = .instruction (some name) indexed)
    (haddress : symbols.address? name = some address) (delta : Nat) :
    s.shifted symbols delta = Instruction.pack op.code (delta + address) indexed := by
  rw [shifted, hoperation, hpayload]
  simp only [haddress, Option.getD_some]

theorem shifted_of_plain (h : ∀ name indexed, s.payload ≠ .instruction (some name) indexed) (delta : Nat) :
    s.shifted symbols delta = (s.code symbols).bytes := by
  unfold shifted
  split
  · exact absurd ‹_› (h _ _)
  · rfl

/-- Either the statement has a symbolic address, or its bytes are the same at every base. -/
theorem shifted_cases (h : Coded symbols s (s.code symbols)) :
    (∃ op name indexed address, s.operation = .opcode op ∧ s.payload = .instruction (some name) indexed ∧
      symbols.address? name = some address ∧ address ≤ Instruction.greatestAddress ∧
      s.code symbols = ⟨Instruction.pack op.code address indexed, some (s.location + 1)⟩) ∨
    (s.code symbols).fixup = none ∧ (∀ name indexed, s.payload ≠ .instruction (some name) indexed) ∧
      ∀ delta, s.shifted symbols delta = (s.code symbols).bytes := by
  generalize hc : s.code symbols = c at h
  cases h with
  | symbolic hoperation hpayload haddress hbound =>
    exact .inl ⟨_, _, _, _, hoperation, hpayload, haddress, hbound, rfl⟩
  | plain _ hpayload | word hpayload | bytes hpayload =>
    have hplain : ∀ name indexed, s.payload ≠ .instruction (some name) indexed := by simp [hpayload]
    exact .inr ⟨rfl, hplain, fun delta => hc ▸ shifted_of_plain hplain delta⟩

theorem shifted_zero (h : Coded symbols s (s.code symbols)) : s.shifted symbols 0 = (s.code symbols).bytes := by
  rcases shifted_cases h with ⟨_, _, _, _, hoperation, hpayload, haddress, -, hcode⟩ | ⟨-, -, hshifted⟩
  · rw [shifted_symbolic hoperation hpayload haddress, hcode, Nat.zero_add]
  · exact hshifted 0

theorem length_shifted (h : Coded symbols s (s.code symbols)) (delta : Nat) :
    (s.shifted symbols delta).length = s.size := by
  rcases shifted_cases h with ⟨_, _, _, _, hoperation, hpayload, haddress, -, -⟩ | ⟨-, -, hshifted⟩
  · rw [shifted_symbolic hoperation hpayload haddress, Instruction.length_pack, size, hpayload, Payload.size]
  · rw [hshifted, length_of_coded h]

end Statement

/-- A statement with object code that a program loaded at `base` has room for below `limit`. -/
structure Statement.Placeable (symbols : SymbolTable) (base limit : Nat) (s : Statement) : Prop where
  sized : s.following = s.location + s.size
  coded : Coded symbols s (s.code symbols)
  inside : base + s.location + s.size ≤ limit

section Placing

variable {symbols : SymbolTable} {base limit : Nat}

/-- Statements that do not overlap have segments that do not. -/
theorem segment_apart {s t : Statement} (hs : s.Placeable symbols base limit) (ht : t.Placeable symbols base limit)
    (h : s.location + s.size ≤ t.location ∨ t.location + t.size ≤ s.location) (delta delta' : Nat) :
    (s.segment symbols base delta).Apart (t.segment symbols base delta') := by
  simp only [Memory.Segment.Apart, Statement.segment, Statement.length_shifted hs.coded,
    Statement.length_shifted ht.coded]
  omega

/-! ### Text records -/

theorem laid_block {first stop : Nat} {b : List Statement} (hb : Consecutive first b stop)
    (hplaceable : ∀ s ∈ b, s.Placeable symbols base limit) (m : Memory) :
    Memory.Laid m (m.fill (base + first) ((b.map (Statement.code symbols)).flatMap ObjectCode.bytes))
      (b.map (Statement.segment symbols base 0)) := by
  induction b generalizing first m with
  | nil => exact m.laid_nil
  | cons s rest ih =>
    have hbefore := (List.pairwise_cons.mp (hb.pairwise fun t ht => (hplaceable t ht).sized)).1
    obtain ⟨rfl, hrest⟩ := hb
    have hs := hplaceable s (List.mem_cons_self ..)
    have hrplaceable : ∀ t ∈ rest, t.Placeable symbols base limit :=
      fun t ht => hplaceable t (List.mem_cons_of_mem s ht)
    rw [List.map_cons, List.flatMap_cons, Memory.fill_append, Statement.length_of_coded hs.coded, Nat.add_assoc,
      ← hs.sized]
    have hfirst : Memory.Laid m (m.fill (base + s.location) (s.code symbols).bytes) [s.segment symbols base 0] := by
      rw [Statement.segment, Statement.shifted_zero hs.coded]
      exact m.laid_fill _ _
    refine hfirst.append (ih hrest hrplaceable _) ?_
    intro u hu v hv
    obtain ⟨t, ht, rfl⟩ := List.mem_map.mp hv
    rw [List.mem_singleton.mp hu]
    exact segment_apart hs (hrplaceable t ht) (.inl (hbefore t ht)) 0 0

/-- The bytes of a block end inside the limit. -/
theorem block_inside {b : List Statement} {stop : Nat} (hne : b ≠ []) (hb : Consecutive (blockStart b) b stop)
    (hplaceable : ∀ s ∈ b, s.Placeable symbols base limit) :
    base + blockStart b + ((b.map (Statement.code symbols)).flatMap ObjectCode.bytes).length ≤ limit := by
  have hsized : ∀ s ∈ b, s.following = s.location + s.size := fun s hs => (hplaceable s hs).sized
  obtain ⟨s, hs, hlast⟩ := hb.exists_last hne
  have hinside := (hplaceable s hs).inside
  have hstop := hb.stop_eq hsized
  rw [hsized s hs] at hlast
  rw [length_flatMap_code fun t ht => (hplaceable t ht).coded]
  omega

/-- Text records put the segments of their statements in place. -/
theorem laid_texts {bs : List (List Statement)} {m : Memory} (hwide : limit < 0x100000000) (hinside : limit ≤ m.size)
    (hblock : ∀ b ∈ bs, b ≠ [] ∧ ∃ stop, Consecutive (blockStart b) b stop)
    (hapart : bs.flatten.Pairwise fun s t => s.location + s.size ≤ t.location)
    (hplaceable : ∀ s ∈ bs.flatten, s.Placeable symbols base limit) :
    ∃ n, Placed base m (bs.map fun b => textRecord b (b.map (Statement.code symbols))) n ∧
      Memory.Laid m n (bs.flatten.map (Statement.segment symbols base 0)) := by
  induction bs generalizing m with
  | nil => exact ⟨m, .nil, m.laid_nil⟩
  | cons b rest ih =>
    rw [List.flatten_cons] at hapart hplaceable ⊢
    obtain ⟨-, hrest, hacross⟩ := List.pairwise_append.mp hapart
    obtain ⟨hne, stop, hb⟩ := hblock b (List.mem_cons_self ..)
    have hbplaceable : ∀ s ∈ b, s.Placeable symbols base limit := fun s hs => hplaceable s (List.mem_append_left _ hs)
    have hrplaceable : ∀ s ∈ rest.flatten, s.Placeable symbols base limit :=
      fun s hs => hplaceable s (List.mem_append_right b hs)
    have hroom := block_inside hne hb hbplaceable
    have hplace : place base m (textRecord b (b.map (Statement.code symbols))) =
        (.ok (), m.fill (base + blockStart b) ((b.map (Statement.code symbols)).flatMap ObjectCode.bytes)) :=
      (place_text_eq_ok_iff (by omega)).mpr ⟨Nat.le_trans hroom hinside, rfl⟩
    have hfirst := laid_block hb hbplaceable m
    obtain ⟨n, hplaced, hlater⟩ := ih (by rw [hfirst.size]; exact hinside)
      (fun b hb => hblock b (List.mem_cons_of_mem _ hb)) hrest hrplaceable
    refine ⟨n, .cons rfl hplace hplaced, ?_⟩
    rw [List.map_append]
    refine hfirst.append hlater ?_
    intro u hu v hv
    obtain ⟨s, hs, rfl⟩ := List.mem_map.mp hu
    obtain ⟨t, ht, rfl⟩ := List.mem_map.mp hv
    exact segment_apart (hbplaceable s hs) (hrplaceable t ht) (.inl (hacross s hs t ht)) 0 0

/-! ### Modification records -/

/-- The address of an instruction, moved by `delta`, is one that an instruction can hold. -/
def Statement.Reaches (symbols : SymbolTable) (delta : Nat) (s : Statement) : Prop :=
  ∀ name indexed address, s.payload = .instruction (some name) indexed → symbols.address? name = some address →
    delta + address ≤ Instruction.greatestAddress

/-- What stops the relocation of a statement that does not reach. -/
def Statement.overflow? (symbols : SymbolTable) (base : Nat) (s : Statement) : Option LoadError :=
  match s.payload with
  | .instruction (some name) _ =>
    match symbols.address? name with
    | some address =>
      if Instruction.greatestAddress < base + address then
        some (.relocationOverflow (base + s.location + 1) (base + address) Instruction.greatestAddress)
      else none
    | none => none
  | _ => none

theorem Statement.overflow?_symbolic {s : Statement} {name : String} {indexed : Bool} {address : Nat}
    (hpayload : s.payload = .instruction (some name) indexed) (haddress : symbols.address? name = some address) :
    s.overflow? symbols base = if Instruction.greatestAddress < base + address then
      some (.relocationOverflow (base + s.location + 1) (base + address) Instruction.greatestAddress) else none := by
  simp only [overflow?, hpayload, haddress]

theorem Statement.overflow?_of_plain {s : Statement} (h : ∀ name indexed, s.payload ≠ .instruction (some name) indexed) :
    s.overflow? symbols base = none := by
  unfold overflow?
  split
  · exact absurd ‹_› (h _ _)
  · rfl

theorem Statement.overflow?_eq_none_iff {s : Statement} : s.overflow? symbols base = none ↔ s.Reaches symbols base := by
  constructor
  · intro h name indexed address hpayload haddress
    rw [overflow?_symbolic hpayload haddress] at h
    split at h
    · cases h
    · exact Nat.le_of_not_lt ‹_›
  · intro h
    unfold overflow?
    split
    · rename_i hpayload
      split
      · rename_i haddress
        exact if_neg (Nat.not_lt.mpr (h _ _ _ hpayload haddress))
      · rfl
    · rfl

/-- Only object code is relocated. -/
theorem findSome?_overflow?_filter (ss : List Statement) :
    (ss.filter Statement.hasCode).findSome? (Statement.overflow? symbols base) =
      ss.findSome? (Statement.overflow? symbols base) := by
  induction ss with
  | nil => rfl
  | cons s rest ih =>
    by_cases hcode : s.hasCode
    · rw [List.filter_cons_of_pos hcode, List.findSome?_cons, List.findSome?_cons, ih]
    · have hplain : ∀ name indexed, s.payload ≠ .instruction (some name) indexed := by
        intro name indexed hpayload
        exact hcode (Statement.hasCode_of_instruction hpayload)
      rw [List.filter_cons_of_neg hcode, ih, List.findSome?_cons, Statement.overflow?_of_plain hplain]

theorem place_fixup_eq {s : Statement} {m : Memory} (hwide : base + s.location + 1 < 0x100000000) :
    place base m (.modification (s.location + 1) 2) =
      relocate m (base + s.location + 1) Instruction.fieldSize base := by
  rw [place, ← Nat.add_assoc, wrapAddress_of_lt hwide]
  rfl

/-- Writing a statement anew leaves the statements around it as they are. -/
theorem laid_replace {front rest : List Statement} {s : Statement} {m m' n : Memory} {delta delta' : Nat}
    (hapart : ∀ t ∈ front ++ rest, t.location + t.size ≤ s.location ∨ s.location + s.size ≤ t.location)
    (hplaceable : ∀ t ∈ front ++ s :: rest, t.Placeable symbols base limit)
    (hlaid : Memory.Laid m m' (front.map (Statement.segment symbols base delta') ++
      s.segment symbols base delta :: rest.map (Statement.segment symbols base delta)))
    (hstep : Memory.Laid m' n [s.segment symbols base delta']) :
    Memory.Laid m n (front.map (Statement.segment symbols base delta') ++
      s.segment symbols base delta' :: rest.map (Statement.segment symbols base delta)) := by
  have hs := hplaceable s (by simp)
  have hothers : ∀ t ∈ front ++ rest, ∀ shift,
      (t.segment symbols base shift).Apart (s.segment symbols base delta) := by
    intro t ht shift
    have hmem : t ∈ front ++ s :: rest := by grind
    exact segment_apart (hplaceable t hmem) hs (hapart t ht) shift delta
  refine hlaid.replace hstep rfl ?_ ?_
  · exact (Statement.length_shifted hs.coded delta').trans (Statement.length_shifted hs.coded delta).symm
  · intro u hu
    rcases List.mem_append.mp hu with hu | hu
    · obtain ⟨t, ht, rfl⟩ := List.mem_map.mp hu
      exact hothers t (List.mem_append_left _ ht) delta'
    · obtain ⟨t, ht, rfl⟩ := List.mem_map.mp hu
      exact hothers t (List.mem_append_right _ ht) delta

/-- Part way through relocation: `n` is `m` with the segments of `front`, which have the base added, and those of
`rest`, which have not. -/
structure Relocating (symbols : SymbolTable) (base limit : Nat) (m n : Memory) (front rest : List Statement) :
    Prop where
  wide : limit < 0x100000000
  inside : limit ≤ m.size
  apart : (front ++ rest).Pairwise fun s t => s.location + s.size ≤ t.location
  placeable : ∀ s ∈ front ++ rest, s.Placeable symbols base limit
  laid : Memory.Laid m n (front.map (Statement.segment symbols base base) ++
    rest.map (Statement.segment symbols base 0))

namespace Relocating

variable {m m' n : Memory} {front rest : List Statement} {s : Statement}

/-- One statement further. -/
theorem next (h : Relocating symbols base limit m m' front (s :: rest))
    (hstep : Memory.Laid m' n [s.segment symbols base base]) :
    Relocating symbols base limit m n (front ++ [s]) rest := by
  have hassoc : front ++ [s] ++ rest = front ++ s :: rest := by simp
  obtain ⟨-, hright, hacross⟩ := List.pairwise_append.mp h.apart
  have hapart : ∀ t ∈ front ++ rest, t.location + t.size ≤ s.location ∨ s.location + s.size ≤ t.location := by
    intro t ht
    rcases List.mem_append.mp ht with ht | ht
    · exact .inl (hacross t ht s (List.mem_cons_self ..))
    · exact .inr ((List.pairwise_cons.mp hright).1 t ht)
  refine ⟨h.wide, h.inside, hassoc ▸ h.apart, hassoc ▸ h.placeable, ?_⟩
  simpa using laid_replace hapart h.placeable h.laid hstep

/-- The modification record of a statement, if it has one, adds the base to its segment or overflows. -/
theorem step (h : Relocating symbols base limit m m' front (s :: rest)) :
    (s.overflow? symbols base = none → ∃ n, Placed base m' (fixupRecords [s.code symbols]) n ∧
      Relocating symbols base limit m n (front ++ [s]) rest) ∧
    ∀ e, s.overflow? symbols base = some e → Refused base m' (fixupRecords [s.code symbols]) e := by
  have hs := h.placeable s (by simp)
  have hinside := hs.inside
  have hwide := h.wide
  rcases Statement.shifted_cases hs.coded with
    ⟨op, name, indexed, address, hoperation, hpayload, haddress, hbound, hcode⟩ | ⟨hfixup, hplain, hshifted⟩
  · have hsized := Statement.size_of_instruction hpayload
    have hshifted := Statement.shifted_symbolic hoperation hpayload haddress
    have hheld : m'.bytes (base + s.location) Instruction.size = Instruction.pack op.code address indexed := by
      have := h.laid.held (s.segment symbols base 0) (by simp)
      rwa [Statement.segment, hshifted, Nat.zero_add, Instruction.length_pack] at this
    have hroom : base + s.location + Instruction.size ≤ m'.size := by
      rw [h.laid.size, ← hsized]
      exact Nat.le_trans hinside h.inside
    have hfixup : fixupRecords [s.code symbols] = [.modification (s.location + 1) 2] := by rw [hcode]; rfl
    have hplace : place base m' (.modification (s.location + 1) 2) =
        relocate m' (base + s.location + 1) Instruction.fieldSize base :=
      place_fixup_eq (by unfold Instruction.size at hsized; omega)
    obtain ⟨hok, herror⟩ := relocate_instruction base (by omega) hroom hheld hbound
    rw [hfixup, Statement.overflow?_symbolic hpayload haddress]
    by_cases hover : Instruction.greatestAddress < base + address
    · have hvalue : (base + address) % LittleEndian.bound fieldLimit = base + address := by
        apply Nat.mod_eq_of_lt
        simp only [LittleEndian.bound, fieldLimit, Instruction.greatestAddress] at hbound ⊢
        omega
      rw [herror hover, hvalue] at hplace
      rw [if_pos hover]
      refine ⟨by simp, ?_⟩
      rintro e ⟨⟩
      exact ⟨[], _, [], m', rfl, .nil, rfl, hplace⟩
    · obtain ⟨n, hrelocate, hstep⟩ := hok (Nat.le_of_not_lt hover)
      rw [← hshifted base] at hstep
      rw [hrelocate] at hplace
      rw [if_neg hover]
      exact ⟨fun _ => ⟨n, .cons rfl hplace .nil, h.next hstep⟩, by simp⟩
  · have hnone : fixupRecords [s.code symbols] = [] := by simp [fixupRecords, hfixup]
    have hsame : s.segment symbols base base = s.segment symbols base 0 := by
      rw [Statement.segment, hshifted, Statement.segment, hshifted]
    have hstep : Memory.Laid m' m' [s.segment symbols base base] :=
      Memory.laid_self (hsame ▸ h.laid.held (s.segment symbols base 0) (by simp))
    rw [hnone, Statement.overflow?_of_plain hplain]
    simp only [reduceCtorEq, false_implies, implies_true, and_true]
    exact fun _ => ⟨m', .nil, h.next hstep⟩

/-- Relocation adds the base to all segments, or stops at the first that overflows. -/
theorem run (h : Relocating symbols base limit m m' front rest) :
    (rest.findSome? (Statement.overflow? symbols base) = none →
      ∃ n, Placed base m' (fixupRecords (rest.map (Statement.code symbols))) n ∧
        Memory.Laid m n ((front ++ rest).map (Statement.segment symbols base base))) ∧
    ∀ e, rest.findSome? (Statement.overflow? symbols base) = some e →
      Refused base m' (fixupRecords (rest.map (Statement.code symbols))) e := by
  induction rest generalizing front m' with
  | nil =>
    have hlaid := h.laid
    rw [List.map_nil, List.append_nil] at hlaid
    rw [List.append_nil]
    exact ⟨fun _ => ⟨m', .nil, hlaid⟩, fun e he => by cases he⟩
  | cons s rest ih =>
    have hsplit : fixupRecords ((s :: rest).map (Statement.code symbols)) =
        fixupRecords [s.code symbols] ++ fixupRecords (rest.map (Statement.code symbols)) :=
      List.filterMap_append (l := [s.code symbols])
    obtain ⟨hok, herror⟩ := h.step
    rw [hsplit, List.findSome?_cons]
    cases hover : s.overflow? symbols base with
    | some e =>
      refine ⟨by simp, ?_⟩
      rintro _ ⟨⟩
      exact (herror e hover).append _
    | none =>
      obtain ⟨p, hplaced, hnext⟩ := hok hover
      obtain ⟨hrest, hrefused⟩ := ih hnext
      rw [← List.append_cons front s rest] at hrest
      refine ⟨?_, fun e he => (hrefused e he).after hplaced⟩
      intro hnone
      obtain ⟨n, hmore, hlaid⟩ := hrest hnone
      exact ⟨n, hplaced.append hmore, hlaid⟩

end Relocating

end Placing

/-! ### Programs -/

/-- `n` is `m` after a program is loaded at `base`. -/
structure Loaded (l : Layout) (o : Outline) (base : Nat) (m n : Memory) : Prop where
  inside : base + o.start + l.length ≤ m.size
  laid : Memory.Laid m n ((o.body.filter Statement.hasCode).map (Statement.segment l.symbols base base))
  reaches : ∀ s ∈ o.body, s.hasCode → s.Reaches l.symbols base

theorem isContent_programRecords {bs : List (List Statement)} {codes : List ObjectCode} {symbols : SymbolTable} :
    ∀ r ∈ bs.map (fun b => textRecord b (b.map (Statement.code symbols))) ++ fixupRecords codes, r.isContent := by
  intro r hr
  rcases List.mem_append.mp hr with hr | hr
  · obtain ⟨b, -, rfl⟩ := List.mem_map.mp hr
    rfl
  · obtain ⟨c, -, address, -, rfl⟩ := mem_fixupRecords.mp hr
    rfl

namespace Assembled

variable {text : String} {l : Layout} {o : Outline} {entry base : Nat} (h : Assembled text l o entry)
include h

theorem placeable (base : Nat) :
    ∀ s ∈ o.body.filter Statement.hasCode, s.Placeable l.symbols base (base + o.start + l.length) := by
  intro s hs
  obtain ⟨hs, hcode⟩ := List.mem_filter.mp hs
  have := h.outlined.mem_range hs
  exact ⟨h.outlined.sized hs, h.coded s hs hcode, by omega⟩

/-- The records between header and end are placed, or stop at the first statement that overflows. -/
theorem placed {m : Memory} (hwide : base + o.start + l.length < 0x100000000)
    (hinside : base + o.start + l.length ≤ m.size) :
    let records := (blocks o.body).map (fun b => textRecord b (b.map (Statement.code l.symbols)))
      ++ fixupRecords ((o.body.filter Statement.hasCode).map (Statement.code l.symbols))
    (o.body.findSome? (Statement.overflow? l.symbols base) = none →
      ∃ n, Placed base m records n ∧
        Memory.Laid m n ((o.body.filter Statement.hasCode).map (Statement.segment l.symbols base base))) ∧
    ∀ e, o.body.findSome? (Statement.overflow? l.symbols base) = some e → Refused base m records e := by
  have hplaceable := h.placeable base
  have hapart := h.outlined.pairwise_filter Statement.hasCode
  obtain ⟨m', htexts, hlaid⟩ := laid_texts hwide hinside
    (fun b hb => ⟨blocks_ne_nil hb, consecutive_block h.outlined.consecutive hb⟩)
    (flatten_blocks o.body ▸ hapart) (flatten_blocks o.body ▸ hplaceable)
  rw [flatten_blocks] at hlaid
  have hrelocating : Relocating l.symbols base (base + o.start + l.length) m m' []
      (o.body.filter Statement.hasCode) := ⟨hwide, hinside, hapart, hplaceable, hlaid⟩
  obtain ⟨hok, herror⟩ := hrelocating.run
  dsimp only
  rw [← findSome?_overflow?_filter]
  refine ⟨?_, fun e he => (herror e he).after htexts⟩
  intro hnone
  obtain ⟨n, hplaced, hlaid⟩ := hok hnone
  exact ⟨n, htexts.append hplaced, hlaid⟩

theorem loaded {m n : Memory} {program : Program} (hwide : base + o.start + l.length < 0x100000000)
    (hload : load m (l.programRecords o entry) base = (.ok program, n)) :
    Loaded l o base m n ∧
      program = { name := o.name, base, origin := base + o.start, entry := wrapAddress (base + entry),
                  terminal := base + o.start + l.length } := by
  obtain ⟨hinside, hplaced, hprogram⟩ := (load_eq_ok_iff isContent_programRecords).mp hload
  rw [wrapAddress_of_lt hwide] at hprogram
  obtain ⟨hok, herror⟩ := h.placed hwide hinside
  cases hover : o.body.findSome? (Statement.overflow? l.symbols base) with
  | some e =>
    obtain ⟨n', hrefused⟩ := (herror e hover).load_eq o.name hinside [.finish entry]
    cases hload.symm.trans hrefused
  | none =>
    obtain ⟨n', hplaced', hlaid⟩ := hok hover
    obtain rfl := hplaced.unique hplaced'
    refine ⟨⟨hinside, hlaid, ?_⟩, hprogram⟩
    intro s hs _
    exact Statement.overflow?_eq_none_iff.mp (List.findSome?_eq_none_iff.mp hover s hs)

end Assembled

/-! ### What a statement becomes -/

/-- The address of an instruction with this operand, in a program that is loaded at `base`. -/
def SymbolTable.operandAddress? (symbols : SymbolTable) (base : Nat) : Option String → Option Nat
  | none => some 0
  | some name => (symbols.address? name).map (base + ·)

/-- A statement of a program that is loaded at `base`, in the memory `n` that was `m` before. -/
def Statement.Stands (symbols : SymbolTable) (base : Nat) (m n : Memory) (s : Statement) : Prop :=
  match s.operation with
  | .opcode op => ∃ symbol indexed address, s.payload = .instruction symbol indexed ∧
      symbols.operandAddress? base symbol = some address ∧
      Instruction.decode? (n.bytes (base + s.location) Instruction.size) = some ⟨op, indexed, address⟩
  | .directive .word => ∃ value, s.payload = .word value ∧
      LittleEndian.decode (n.bytes (base + s.location) 3) = value
  | .directive .byte => ∃ bs, s.payload = .bytes bs ∧ n.bytes (base + s.location) bs.length = bs
  | .directive .reserveBytes | .directive .reserveWords =>
      ∀ x, base + s.location ≤ x → x < base + s.location + s.size → n.byte x = m.byte x
  | .directive .start | .directive .finish => False

theorem Statement.shifted_instruction {symbols : SymbolTable} {base : Nat} {s : Statement} {op : Opcode}
    {symbol : Option String} {indexed : Bool} (hoperation : s.operation = .opcode op)
    (hpayload : s.payload = .instruction symbol indexed) (hcoded : Coded symbols s (s.code symbols))
    (hreaches : s.Reaches symbols base) :
    ∃ address, symbols.operandAddress? base symbol = some address ∧ address ≤ Instruction.greatestAddress ∧
      s.shifted symbols base = Instruction.pack op.code address indexed := by
  cases symbol with
  | none =>
    have hcode : s.objectCode symbols = .ok ⟨Instruction.pack op.code 0 indexed, none⟩ :=
      objectCode_eq_ok_iff.mpr (.plain hoperation hpayload)
    refine ⟨0, rfl, Nat.zero_le _, ?_⟩
    rw [shifted_of_plain (by simp [hpayload]), code_eq hcode]
  | some name =>
    rcases shifted_cases hcoded with ⟨_, _, _, address, _, hpayload', haddress, -, -⟩ | ⟨-, hplain, -⟩
    · cases hpayload.symm.trans hpayload'
      refine ⟨base + address, ?_, hreaches name indexed address hpayload haddress, ?_⟩
      · rw [SymbolTable.operandAddress?, haddress, Option.map_some]
      · exact shifted_symbolic hoperation hpayload haddress base
    · exact absurd hpayload (hplain name indexed)

namespace Loaded

variable {text : String} {l : Layout} {o : Outline} {entry base : Nat} {m n : Memory}
  (hassembled : Assembled text l o entry) (h : Loaded l o base m n)
include hassembled h

theorem bytes_eq {s : Statement} (hs : s ∈ o.body) (hcode : s.hasCode) :
    n.bytes (base + s.location) s.size = s.shifted l.symbols base := by
  rw [← Statement.length_shifted (hassembled.coded s hs hcode) base]
  exact h.laid.held (s.segment l.symbols base base)
    (List.mem_map.mpr ⟨s, List.mem_filter.mpr ⟨hs, hcode⟩, rfl⟩)

theorem bytes_eq_of_coded {s : Statement} {c : ObjectCode} (hs : s ∈ o.body) (hc : Coded l.symbols s c)
    (hfixup : c.fixup = none) : n.bytes (base + s.location) s.size = c.bytes := by
  have hcode := Statement.code_eq (Statement.objectCode_eq_ok_iff.mpr hc)
  rw [h.bytes_eq hassembled hs (Statement.hasCode_of_coded hc), ← hcode]
  rcases Statement.shifted_cases (hcode ▸ hc) with ⟨_, _, _, _, _, _, _, _, hsymbolic⟩ | ⟨-, -, hshifted⟩
  · rw [hsymbolic] at hcode
    rw [← hcode] at hfixup
    cases hfixup
  · exact hshifted base

/-- A byte that belongs to no object code stays. -/
theorem byte_kept {x : Nat}
    (hx : ∀ s ∈ o.body, s.hasCode → ¬(base + s.location ≤ x ∧ x < base + s.location + s.size)) :
    n.byte x = m.byte x := by
  apply h.laid.kept
  intro u hu hcovers
  obtain ⟨s, hs, rfl⟩ := List.mem_map.mp hu
  obtain ⟨hs, hcode⟩ := List.mem_filter.mp hs
  refine hx s hs hcode ?_
  rwa [Memory.Segment.Covers, Statement.segment, Statement.length_shifted (hassembled.coded s hs hcode)] at hcovers

/-- Every statement of a loaded program stands in memory. -/
theorem stands {s : Statement} (hs : s ∈ o.body) : s.Stands l.symbols base m n := by
  have hsuits := (hassembled.outlined.wellFormed hs).suits
  have hboundary := Outline.isBoundary_eq_false (hassembled.outlined.interior s hs)
  unfold Statement.Stands
  split
  case h_1 op hoperation =>
    rw [hoperation] at hsuits
    obtain ⟨symbol, indexed, hpayload, -⟩ := hsuits.opcode
    have hcode := Statement.hasCode_of_instruction hpayload
    obtain ⟨address, haddress, hbound, hshifted⟩ := Statement.shifted_instruction hoperation hpayload
      (hassembled.coded s hs hcode) (h.reaches s hs hcode)
    have hbytes := h.bytes_eq hassembled hs hcode
    rw [Statement.size, hpayload, Payload.size, hshifted] at hbytes
    refine ⟨symbol, indexed, address, hpayload, haddress, ?_⟩
    rw [hbytes, ← List.append_nil (Instruction.pack _ _ _), Instruction.decode?_pack op hbound]
  case h_2 hoperation =>
    rw [hoperation] at hsuits
    obtain ⟨value, hpayload, hbound⟩ := hsuits.word
    have hbytes := h.bytes_eq_of_coded hassembled hs (.word hpayload) rfl
    rw [Statement.size, hpayload, Payload.size] at hbytes
    refine ⟨value, hpayload, ?_⟩
    rw [hbytes, LittleEndian.decode_encode_word hbound]
  case h_3 hoperation =>
    rw [hoperation] at hsuits
    obtain ⟨bs, hpayload⟩ := hsuits.byte
    have hbytes := h.bytes_eq_of_coded hassembled hs (.bytes hpayload) rfl
    rw [Statement.size, hpayload, Payload.size] at hbytes
    exact ⟨bs, hpayload, hbytes⟩
  case h_4 hoperation | h_5 hoperation =>
    rw [hoperation] at hsuits
    obtain ⟨count, unit, hpayload⟩ := hsuits.reserve (by simp)
    intro x hfirst hlast
    apply h.byte_kept hassembled
    intro t ht hcode hcovers
    rcases hassembled.outlined.apart hs ht with rfl | happart
    · rw [Statement.hasCode, hpayload] at hcode
      cases hcode
    · omega
  case h_6 hoperation => exact hboundary.1 hoperation
  case h_7 hoperation => exact hboundary.2 hoperation

theorem byte_outside {x : Nat} (hx : x < base + o.start ∨ base + o.start + l.length ≤ x) : n.byte x = m.byte x := by
  apply h.byte_kept hassembled
  intro s hs _ hcovers
  have := hassembled.outlined.mem_range hs
  omega

end Loaded

/-- Assembling a source text, writing its records as an image and loading that at any base puts every statement
in place, with the base added to symbolic addresses, and leaves all other bytes alone. The entry has the base added
unless the sum has more than 32 bits. -/
theorem assembled_program_stands {text : String} {records : List Record} (h : assemble text = .ok records) :
    ∃ layout outline entry image,
      Layout.ofLines (sourceLines text) = .ok layout ∧
      Outline.ofStatements layout.statements.toList = .ok outline ∧
      outline.last.entry layout.symbols = .ok entry ∧
      encodeImage records = .ok image ∧
      ∀ memory after base program, memory.size < 0x100000000 →
        loadImage memory image base = (.ok program, after) →
        (∀ s ∈ outline.body, s.Stands layout.symbols base memory after) ∧
        (∀ x, (∀ s ∈ outline.body, s.hasCode → ¬(base + s.location ≤ x ∧ x < base + s.location + s.size)) →
          after.byte x = memory.byte x) ∧
        (∀ x, x < base + outline.start ∨ base + outline.start + layout.length ≤ x →
          after.byte x = memory.byte x) ∧
        after.size = memory.size ∧
        program = { name := outline.name, base, origin := base + outline.start,
                    entry := wrapAddress (base + entry), terminal := base + outline.start + layout.length } ∧
        (program.entry = base + entry ↔ base + entry < 0x100000000) := by
  obtain ⟨layout, outline, entry, hassembled, rfl⟩ := assemble_eq_ok_iff.mp h
  obtain ⟨image, hencode, hdecode⟩ := hassembled.image
  refine ⟨layout, outline, entry, image, hassembled.layout, hassembled.outline, hassembled.entry, hencode, ?_⟩
  intro memory after base program hsize hload
  rw [loadImage, hdecode] at hload
  have hinside := ((load_eq_ok_iff isContent_programRecords).mp hload).1
  obtain ⟨hloaded, rfl⟩ := hassembled.loaded (Nat.lt_of_le_of_lt hinside hsize) hload
  exact ⟨fun s hs => hloaded.stands hassembled hs, fun x => hloaded.byte_kept hassembled,
    fun x => hloaded.byte_outside hassembled, hloaded.laid.size, rfl, Nat.mod_eq_iff_lt (by decide)⟩

/-- The image of a program with an indexed forward reference and a reserved area. -/
def indexedImage : List UInt8 :=
  [0, 80, 0, 0, 0, 0, 0, 16, 0, 0, 13, 0, 0, 1, 16, 0, 0, 9, 0, 22, 128, 23, 0, 0, 254, 255, 255, 1, 27, 0, 0, 2,
    111, 107, 3, 17, 0, 0, 2, 2, 27, 0, 0]

/-- The image of a program that ends three bytes behind its start, and is entered far behind it. -/
def distantImage : List UInt8 :=
  [0, 80, 0, 0, 0, 0, 0, 0, 0, 0, 3, 0, 0, 1, 0, 0, 0, 3, 23, 0, 0, 2, 255, 255, 0]

/-- The first program is loaded well above its start address. The second one is loaded so high that its entry wraps. -/
theorem indexed_program_stands :
    (∃ layout outline after,
      Layout.ofLines (sourceLines "P START 0010\n LDA N,X\n NOP\nN WORD -2\nR RESB 2\nB BYTE c'ok'\n END B\n") =
        .ok layout ∧
      Outline.ofStatements layout.statements.toList = .ok outline ∧
      loadImage (Memory.zeroed 0x2000) indexedImage 0x1000 = (.ok ⟨"P", 0x1000, 0x1010, 0x101B, 0x101D⟩, after) ∧
      (∀ s ∈ outline.body, s.Stands layout.symbols 0x1000 (Memory.zeroed 0x2000) after) ∧
      Instruction.decode? (after.bytes 0x1010 3) = some ⟨.lda, true, 0x1016⟩ ∧
      Instruction.decode? (after.bytes 0x1013 3) = some ⟨.nop, false, 0⟩ ∧
      after.bytes 0x1016 3 = [254, 255, 255] ∧ after.bytes 0x1019 2 = [0, 0] ∧ after.bytes 0x101B 2 = [111, 107]) ∧
    assemble "P START 0000\n NOP\n END FFFF\n" = .ok [.header "P" 0 3, .text 0 [23, 0, 0], .finish 0xFFFF] ∧
    encodeImage [.header "P" 0 3, .text 0 [23, 0, 0], .finish 0xFFFF] = .ok distantImage ∧
    (loadImage (Memory.zeroed 0xFFFFFFFF) distantImage 0xFFFFFF00).1 =
      .ok ⟨"P", 0xFFFFFF00, 0xFFFFFF00, 0xFEFF, 0xFFFFFF03⟩ ∧
    0xFEFF ≠ 0xFFFFFF00 + 0xFFFF := by
  refine ⟨?_, by decide +kernel, by decide +kernel, by decide +kernel, by decide⟩
  have hassemble : assemble "P START 0010\n LDA N,X\n NOP\nN WORD -2\nR RESB 2\nB BYTE c'ok'\n END B\n" =
      .ok [.header "P" 16 13, .text 16 [0, 22, 128, 23, 0, 0, 254, 255, 255], .text 27 [111, 107],
        .modification 17 2, .finish 27] := by decide +kernel
  obtain ⟨layout, outline, entry, image, hlayout, houtline, -, hencode, hall⟩ := assembled_program_stands hassemble
  obtain rfl : image = indexedImage := Except.ok.inj (hencode.symm.trans (by decide +kernel))
  have hload : loadImage (Memory.zeroed 0x2000) indexedImage 0x1000 =
      (.ok ⟨"P", 0x1000, 0x1010, 0x101B, 0x101D⟩, _) := Prod.ext (by decide +kernel) rfl
  exact ⟨layout, outline, _, hlayout, houtline, hload, (hall _ _ _ _ (by decide) hload).1, by decide +kernel,
    by decide +kernel, by decide +kernel, by decide +kernel, by decide +kernel⟩

end Tribyte
