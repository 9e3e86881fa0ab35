import Tribyte.Loading
import Tribyte.Proofs.Checked
import Tribyte.Proofs.Memory.Contents

/-! Loading replays records, one write after another.

A text record is put in place as it is. Relocation adds to a field and leaves the rest of an instruction
alone (`relocate_eq`, `relocate_instruction`). Either way a record is refused, or it writes one string of bytes
inside memory (`place_cases`). A program is loaded where it fits the memory and every record between its header
and its end can be placed (`load_eq_ok_iff`). -/
namespace Tribyte

theorem wrapAddress_of_lt {n : Nat} (h : n < 0x100000000) : wrapAddress n = n := Nat.mod_eq_of_lt h

/-! ### Fields -/

theorem LittleEndian.decode_append (bs cs : List UInt8) :
    decode (bs ++ cs) = decode bs + bound bs.length * decode cs := by
  induction bs with
  | nil => rw [List.nil_append, decode, List.length_nil, bound, Nat.zero_add, Nat.one_mul]
  | cons b rest ih =>
    rw [List.cons_append, decode, ih, decode, List.length_cons, bound, Nat.mul_add, Nat.mul_assoc, Nat.add_assoc]

theorem readDown_eq {m : Memory} {address count : Nat} (hwide : address + count ≤ 0x100000000)
    (h : address + count ≤ m.size) (high : Nat) :
    readDown m address count high =
      .ok (LittleEndian.decode (m.bytes address count) + LittleEndian.bound count * high) := by
  induction count generalizing high with
  | zero =>
    rw [readDown, Memory.bytes, LittleEndian.decode, LittleEndian.bound, Nat.zero_add, Nat.one_mul]
  | succ count ih =>
    have hbyte : LittleEndian.decode (m.bytes (address + count) 1) = (m.byte (address + count)).toNat := by
      simp [Memory.bytes, LittleEndian.decode]
    rw [readDown, wrapAddress_of_lt (by omega), Memory.read_eq_ok (by omega), hbyte]
    show readDown m address count _ = _
    rw [ih (by omega) (by omega), Memory.bytes_append, LittleEndian.decode_append, Memory.length_bytes, hbyte,
      LittleEndian.bound]
    congr 1
    rw [Nat.mul_add, Nat.add_assoc, Nat.add_comm (_ * _), Nat.mul_assoc 256, Nat.mul_left_comm]

/-- A field is relocated where the sum is no more than it can hold. -/
theorem relocate_eq {m : Memory} {address length delta : Nat} (hwide : address + length ≤ 0x100000000)
    (hinside : address + length ≤ m.size) {value low : Nat} (hvalue : LittleEndian.decode (m.bytes address length) = value)
    (hlow : value % (greatestInField length + 1) = low) :
    relocate m address length delta =
      if greatestInField length < low + delta then
        (.error (.relocationOverflow address ((low + delta) % LittleEndian.bound fieldLimit) (greatestInField length)), m)
      else (.ok (), m.fill address (LittleEndian.encode length (value + delta))) := by
  have hle : low ≤ value := hlow ▸ Nat.mod_le value (greatestInField length + 1)
  rw [relocate, readDown_eq hwide hinside, Nat.mul_zero, Nat.add_zero, hvalue]
  dsimp only
  rw [hlow, Memory.write_eq_ok hinside, ← Nat.add_assoc, Nat.sub_add_cancel hle]

theorem Instruction.pack_of_le {address : Nat} (h : address ≤ greatestAddress) (code : UInt8) (indexed : Bool) :
    pack code address indexed =
      code :: LittleEndian.encode fieldSize (address + if indexed then indexFlag else 0) := by
  have hlow : address % indexFlag = address := Nat.mod_eq_of_lt (Nat.lt_succ_of_le h)
  rw [pack, hlow]

/-- The bytes after the code of an instruction spell its address under the index flag. -/
theorem decode_field {m : Memory} {code : UInt8} {indexed : Bool} {here address : Nat}
    (hheld : m.bytes here Instruction.size = Instruction.pack code address indexed)
    (hbound : address ≤ Instruction.greatestAddress) :
    m.byte here = code ∧ LittleEndian.decode (m.bytes (here + 1) Instruction.fieldSize) =
      address + if indexed then Instruction.indexFlag else 0 := by
  rw [Instruction.pack_of_le hbound] at hheld
  obtain ⟨hcode, hfield⟩ := List.cons.inj hheld
  refine ⟨hcode, ?_⟩
  show LittleEndian.decode (m.bytes (here + 1) 2) = _
  rw [hfield, LittleEndian.decode_encode]
  apply Nat.mod_eq_of_lt
  simp only [Instruction.fieldSize, Instruction.indexFlag, Instruction.greatestAddress, LittleEndian.bound] at *
  split <;> omega

/-- Relocating the address of an instruction that a memory holds. -/
theorem relocate_instruction {m : Memory} {code : UInt8} {indexed : Bool} {here address : Nat} (delta : Nat)
    (hwide : here + Instruction.size ≤ 0x100000000) (hinside : here + Instruction.size ≤ m.size)
    (hheld : m.bytes here Instruction.size = Instruction.pack code address indexed)
    (hbound : address ≤ Instruction.greatestAddress) :
    (delta + address ≤ Instruction.greatestAddress →
      ∃ n, relocate m (here + 1) Instruction.fieldSize delta = (.ok (), n) ∧
        Memory.Laid m n [⟨here, Instruction.pack code (delta + address) indexed⟩]) ∧
    (Instruction.greatestAddress < delta + address →
      relocate m (here + 1) Instruction.fieldSize delta =
        (.error (.relocationOverflow (here + 1) ((delta + address) % LittleEndian.bound fieldLimit)
          Instruction.greatestAddress), m)) := by
  have hsize : Instruction.size = 1 + Instruction.fieldSize := rfl
  have hlimit : greatestInField Instruction.fieldSize = Instruction.greatestAddress := rfl
  obtain ⟨hcode, hvalue⟩ := decode_field hheld hbound
  have hlow : (address + if indexed then Instruction.indexFlag else 0) % (greatestInField Instruction.fieldSize + 1) =
      address := by
    rw [hlimit]
    simp only [Instruction.indexFlag, Instruction.greatestAddress] at hbound ⊢
    split <;> omega
  rw [relocate_eq (by omega) (by omega) hvalue hlow, hlimit, Nat.add_comm address delta]
  constructor
  · intro hsum
    refine ⟨_, if_neg (Nat.not_lt.mpr hsum), ?_⟩
    rw [Instruction.pack_of_le hsum, ← hcode, Nat.add_comm delta, Nat.add_right_comm]
    exact m.laid_fill_succ here _
  · intro hover
    exact if_pos hover

/-! ### Records -/

/-- Text and modification records, which stand between a header and an end record. -/
def Record.isContent : Record → Bool
  | .text _ _ | .modification _ _ => true
  | .header _ _ _ | .finish _ => false

theorem place_text_eq_ok_iff {base start : Nat} {payload : List UInt8} {m n : Memory}
    (hwide : base + start < 0x100000000) :
    place base m (.text start payload) = (.ok (), n) ↔
      base + start + payload.length ≤ m.size ∧ n = m.fill (base + start) payload := by
  rw [← Memory.writeBytes_eq_ok_iff, place, wrapAddress_of_lt hwide]
  split <;> simp_all

theorem loadBody_of_error {program : Program} {m n : Memory} {r : Record} {e : LoadError} (hr : r.isContent)
    (h : place program.base m r = (.error e, n)) (rest : List Record) :
    loadBody program m (r :: rest) = (.error e, n) := by
  cases r with
  | text | modification => rw [loadBody, h] <;> simp
  | header | finish => cases hr

theorem loadBody_of_ok {program : Program} {m n : Memory} {r : Record} (hr : r.isContent)
    (h : place program.base m r = (.ok (), n)) (rest : List Record) :
    loadBody program m (r :: rest) = loadBody program n rest := by
  cases r with
  | text | modification => rw [loadBody, h] <;> simp
  | header | finish => cases hr

/-- Text and modification records that are placed in turn, and the memory they leave. -/
inductive Placed (base : Nat) : Memory → List Record → Memory → Prop where
  | nil {m : Memory} : Placed base m [] m
  | cons {m m' n : Memory} {r : Record} {rest : List Record} (hr : r.isContent)
      (hplace : place base m r = (.ok (), m')) (hrest : Placed base m' rest n) : Placed base m (r :: rest) n

namespace Placed

variable {base : Nat} {m m' n : Memory} {records : List Record}

theorem isContent (h : Placed base m records n) : ∀ r ∈ records, r.isContent := by
  induction h with
  | nil => simp
  | cons hr _ _ ih => exact List.forall_mem_cons.mpr ⟨hr, ih⟩

theorem unique {n' : Memory} (h : Placed base m records n) (h' : Placed base m records n') : n = n' := by
  induction h with
  | nil =>
    cases h'
    rfl
  | cons _ hplace _ ih =>
    cases h' with
    | cons _ hplace' hrest' =>
      cases hplace.symm.trans hplace'
      exact ih hrest'

theorem append (h : Placed base m records m') {more : List Record} (hmore : Placed base m' more n) :
    Placed base m (records ++ more) n := by
  induction h with
  | nil => exact hmore
  | cons hr hplace _ ih => exact .cons hr hplace (ih hmore)

theorem loadBody_append (h : Placed base m records n) {program : Program} (hbase : program.base = base)
    (rest : List Record) : loadBody program m (records ++ rest) = loadBody program n rest := by
  subst hbase
  induction h with
  | nil => rfl
  | cons hr hplace _ ih => rw [List.cons_append, loadBody_of_ok hr hplace, ih]

/-- Behind a header that is accepted, loading goes on with the memory that the records leave. -/
theorem load_append (name : String) {start length : Nat} (hinside : base + start + length ≤ m.size)
    (h : Placed base m records n) (rest : List Record) :
    load m (.header name start length :: (records ++ rest)) base =
      loadBody { name, base, origin := base + start, entry := 0, terminal := wrapAddress (base + start + length) }
        n rest := by
  rw [load, if_neg (Nat.not_lt.mpr hinside)]
  exact h.loadBody_append rfl rest

end Placed

/-- One of these records is refused with `e`, after those before it are placed. -/
def Refused (base : Nat) (m : Memory) (records : List Record) (e : LoadError) : Prop :=
  ∃ front r rest n, records = front ++ r :: rest ∧ Placed base m front n ∧ r.isContent ∧
    place base n r = (.error e, n)

namespace Refused

variable {base : Nat} {m n : Memory} {records : List Record} {e : LoadError}

theorem append (h : Refused base m records e) (more : List Record) : Refused base m (records ++ more) e := by
  obtain ⟨front, r, rest, n, rfl, hplaced, hr, hplace⟩ := h
  exact ⟨front, r, rest ++ more, n, by simp, hplaced, hr, hplace⟩

theorem after {front : List Record} (hfront : Placed base m front n) (h : Refused base n records e) :
    Refused base m (front ++ records) e := by
  obtain ⟨more, r, rest, n', rfl, hplaced, hr, hplace⟩ := h
  exact ⟨front ++ more, r, rest, n', by simp, hfront.append hplaced, hr, hplace⟩

theorem load_eq (h : Refused base m records e) (name : String) {start length : Nat}
    (hinside : base + start + length ≤ m.size) (more : List Record) :
    ∃ n, load m (.header name start length :: (records ++ more)) base = (.error e, n) := by
  obtain ⟨front, r, rest, n, rfl, hplaced, hr, hplace⟩ := h
  refine ⟨n, ?_⟩
  rw [List.append_assoc, hplaced.load_append name hinside, List.cons_append, loadBody_of_error hr hplace]

end Refused

theorem loadBody_eq_ok_iff {records rest : List Record} (hcontent : ∀ r ∈ records, r.isContent) {entry : Nat}
    {program program' : Program} {m n : Memory} :
    loadBody program m (records ++ .finish entry :: rest) = (.ok program', n) ↔
      Placed program.base m records n ∧
      program' = { program with entry := wrapAddress (program.base + entry) } := by
  constructor
  · intro h
    induction records generalizing m with
    | nil =>
      cases h
      exact ⟨.nil, rfl⟩
    | cons r records ih =>
      have hr := hcontent r (List.mem_cons_self ..)
      rw [List.cons_append] at h
      rcases hplace : place program.base m r with ⟨e | _, m'⟩
      · rw [loadBody_of_error hr hplace] at h
        cases h
      · rw [loadBody_of_ok hr hplace] at h
        obtain ⟨hplaced, hprogram⟩ := ih (fun r hr => hcontent r (List.mem_cons_of_mem _ hr)) h
        exact ⟨.cons hr hplace hplaced, hprogram⟩
  · rintro ⟨hplaced, rfl⟩
    rw [hplaced.loadBody_append rfl, loadBody]

theorem load_eq_ok_iff {records rest : List Record} (hcontent : ∀ r ∈ records, r.isContent) {name : String}
    {start length entry base : Nat} {program : Program} {m n : Memory} :
    load m (.header name start length :: (records ++ .finish entry :: rest)) base = (.ok program, n) ↔
      base + start + length ≤ m.size ∧ Placed base m records n ∧
      program = { name, base, origin := base + start, entry := wrapAddress (base + entry),
                  terminal := wrapAddress (base + start + length) } := by
  rw [load]
  split
  · simp only [Prod.mk.injEq, reduceCtorEq, false_and, false_iff, not_and]
    omega
  · rename_i hfits
    rw [loadBody_eq_ok_iff hcontent]
    simp only [Nat.le_of_not_lt hfits, true_and]

/-! ### One write

A record is refused, or it writes one string of bytes that lies inside memory. -/

theorem relocate_cases (m : Memory) (address length delta : Nat) :
    (∃ cause, relocate m address length delta = (.error (.outOfBounds address length cause), m)) ∨
    (∃ value limit, relocate m address length delta = (.error (.relocationOverflow address value limit), m)) ∨
    ∃ bs, bs.length = length ∧ address + length ≤ m.size ∧
      relocate m address length delta = (.ok (), m.fill address bs) := by
  unfold relocate
  split
  · exact .inl ⟨_, rfl⟩
  · dsimp only
    split
    · exact .inr (.inl ⟨_, _, rfl⟩)
    · by_cases hinside : address + length ≤ m.size
      · rw [Memory.write_eq_ok hinside]
        exact .inr (.inr ⟨_, LittleEndian.length_encode .., hinside, rfl⟩)
      · rw [Memory.write_eq_error hinside]
        exact .inl ⟨_, rfl⟩

/-- A relocation that fails leaves memory as it was. -/
theorem relocate_eq_error {m n : Memory} {address length delta : Nat} {e : LoadError}
    (h : relocate m address length delta = (.error e, n)) : n = m := by
  rcases relocate_cases m address length delta with ⟨_, he⟩ | ⟨_, _, he⟩ | ⟨_, -, -, hok⟩
  · cases h.symm.trans he
    rfl
  · cases h.symm.trans he
    rfl
  · cases h.symm.trans hok

theorem place_cases (base : Nat) (m : Memory) (r : Record) :
    (∃ address length cause, place base m r = (.error (.outOfBounds address length cause), m)) ∨
    (∃ address value limit, place base m r = (.error (.relocationOverflow address value limit), m)) ∨
    ∃ address bs, address + bs.length ≤ m.size ∧ place base m r = (.ok (), m.fill address bs) := by
  cases r with
  | text start payload =>
    by_cases hinside : wrapAddress (base + start) + payload.length ≤ m.size
    · have hwrite := Memory.writeBytes_eq_ok hinside
      exact .inr (.inr ⟨_, _, hinside, by rw [place, hwrite]⟩)
    · have hwrite := Memory.writeBytes_eq_error hinside
      exact .inl ⟨_, _, _, by rw [place, hwrite]⟩
  | modification address length =>
    rcases relocate_cases m (wrapAddress (base + address)) (min length.toNat fieldLimit) base with
      ⟨cause, h⟩ | ⟨value, limit, h⟩ | ⟨bs, hlength, hinside, h⟩
    · exact .inl ⟨_, _, cause, h⟩
    · exact .inr (.inl ⟨_, value, limit, h⟩)
    · exact .inr (.inr ⟨_, bs, hlength ▸ hinside, h⟩)
  | header | finish => exact .inr (.inr ⟨0, [], Nat.zero_le _, rfl⟩)

/-- The errors that text and modification records can give. -/
def LoadError.isOfContent : LoadError → Bool
  | relocationOverflow _ _ _ | outOfBounds _ _ _ => true
  | missingHeader _ | duplicateHeader | missingEnd | tooLarge _ _ _ => false

/-- A record that is refused leaves memory as it was. -/
theorem place_eq_error {base : Nat} {m n : Memory} {r : Record} {e : LoadError} (h : place base m r = (.error e, n)) :
    e.isOfContent ∧ n = m := by
  rcases place_cases base m r with ⟨_, _, _, he⟩ | ⟨_, _, _, he⟩ | ⟨_, _, -, hok⟩
  · cases h.symm.trans he
    exact ⟨rfl, rfl⟩
  · cases h.symm.trans he
    exact ⟨rfl, rfl⟩
  · cases h.symm.trans hok

@[simp] theorem size_place (base : Nat) (m : Memory) (r : Record) : (place base m r).2.size = m.size := by
  rcases place_cases base m r with ⟨_, _, _, he⟩ | ⟨_, _, _, he⟩ | ⟨address, bs, -, hok⟩
  · rw [he]
  · rw [he]
  · rw [hok, Memory.size_fill]

theorem size_loadBody (program : Program) (m : Memory) (records : List Record) :
    (loadBody program m records).2.size = m.size := by
  fun_induction loadBody program m records with
  | case1 | case2 | case3 => rfl
  | case4 m r rest _ _ e m' hplace => rw [← size_place program.base m r, hplace]
  | case5 m r rest _ _ m' hplace ih => rw [ih, ← size_place program.base m r, hplace]

theorem size_loadImage (m : Memory) (image : List UInt8) (base : Nat) : (loadImage m image base).2.size = m.size := by
  unfold loadImage load
  split
  · rfl
  · dsimp only
    split
    · rfl
    · exact size_loadBody ..
  · rfl

end Tribyte
