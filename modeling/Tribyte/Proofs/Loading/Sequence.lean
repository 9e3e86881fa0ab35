import Mathlib.Control.Monad.Basic
import Tribyte.Proofs.Loading.Replay

/-! Loading any list of records, well formed or not.

Loading places text and modification records one after another until a record stops it (`Placed`,
`exists_placed`). `Ending` lists the ways in which it can end, and `load_eq_iff` says that there are no others.
Whichever it is, memory is left with what the records before the end have written (`replay`); the record that
stops the load writes nothing, and what follows it is never looked at (`load_replays`). -/
namespace Tribyte

/-! ### What records write -/

/-- The memory with what a record writes: a payload is put in place as it is, and the base is added to the
number in a field. -/
def Record.applied (base : Nat) (m : Memory) : Record → Memory
  | .text start payload => m.fill (wrapAddress (base + start)) payload
  | .modification address length =>
    let here := wrapAddress (base + address)
    let count := min length.toNat fieldLimit
    m.fill here (LittleEndian.encode count (LittleEndian.decode (m.bytes here count) + base))
  | .header _ _ _ | .finish _ => m

/-- The memory with what records write, one after another. -/
def replay (base : Nat) (m : Memory) (records : List Record) : Memory := records.foldl (Record.applied base) m

/-- Where a field is relocated, the base is added to its number. -/
theorem relocate_eq_ok {m n : Memory} {address length delta : Nat} (hsize : m.size < 0x100000000)
    (h : relocate m address length delta = (.ok (), n)) :
    n = m.fill address (LittleEndian.encode length (LittleEndian.decode (m.bytes address length) + delta)) := by
  rcases relocate_cases m address length delta with ⟨_, he⟩ | ⟨_, _, he⟩ | ⟨_, -, hinside, -⟩
  · cases h.symm.trans he
  · cases h.symm.trans he
  · rw [relocate_eq (by omega) hinside rfl rfl] at h
    split at h
    · cases h
    · cases h
      rfl

theorem place_eq_ok {base : Nat} {m n : Memory} {r : Record} (hsize : m.size < 0x100000000)
    (h : place base m r = (.ok (), n)) : n = r.applied base m := by
  cases r with
  | text start payload =>
    simp only [place] at h
    split at h
    · cases h
    · rename_i hwrite
      cases h
      exact (Memory.writeBytes_eq_ok_iff.mp hwrite).2
  | modification address length => exact relocate_eq_ok hsize h
  | header | finish =>
    cases h
    rfl

/-! ### One record after another -/

namespace Placed

variable {base : Nat} {m n : Memory} {records : List Record}

theorem eq_replay (hsize : m.size < 0x100000000) (h : Placed base m records n) : n = replay base m records := by
  induction h with
  | nil => rfl
  | cons hr hplace _ ih =>
    rw [ih (by rwa [← size_place, hplace] at hsize), place_eq_ok hsize hplace]
    rfl

end Placed

/-- The records that are placed before one stops the load, if any does. -/
theorem exists_placed (base : Nat) (m : Memory) (records : List Record) :
    ∃ front n rest, records = front ++ rest ∧ Placed base m front n ∧
      ∀ r more, rest = r :: more → r.isContent → ∃ e, place base n r = (.error e, n) := by
  induction records generalizing m with
  | nil => exact ⟨[], m, [], rfl, .nil, by simp⟩
  | cons r records ih =>
    by_cases hr : r.isContent
    · rcases hplace : place base m r with ⟨e | _, m'⟩
      · obtain ⟨-, rfl⟩ := place_eq_error hplace
        refine ⟨[], _, r :: records, rfl, .nil, ?_⟩
        rintro _ _ ⟨⟩ -
        exact ⟨e, hplace⟩
      · obtain ⟨front, n, rest, rfl, hplaced, hstop⟩ := ih m'
        exact ⟨r :: front, n, rest, rfl, .cons hr hplace hplaced, hstop⟩
    · refine ⟨[], m, r :: records, rfl, .nil, ?_⟩
      rintro _ _ ⟨⟩ hcontent
      exact absurd hcontent hr

/-! ### How loading ends -/

/-- The result of loading records, and the memory that is left. -/
inductive Ending (base : Nat) (m : Memory) : List Record → Except LoadError Program → Memory → Prop where
  | empty : Ending base m [] (.error .missingEnd) m
  | missingHeader {r : Record} {rest : List Record} (hr : ∀ name start length, r ≠ .header name start length) :
      Ending base m (r :: rest) (.error (.missingHeader r.kind)) m
  | tooLarge {name : String} {start length : Nat} {rest : List Record} (hlarge : m.size < base + start + length) :
      Ending base m (.header name start length :: rest)
        (.error (.tooLarge name (base + start + length) m.size)) m
  | missingEnd {name : String} {start length : Nat} {front : List Record} {n : Memory}
      (hinside : base + start + length ≤ m.size) (hplaced : Placed base m front n) :
      Ending base m (.header name start length :: front) (.error .missingEnd) n
  | duplicateHeader {name name' : String} {start length start' length' : Nat} {front rest : List Record} {n : Memory}
      (hinside : base + start + length ≤ m.size) (hplaced : Placed base m front n) :
      Ending base m (.header name start length :: (front ++ .header name' start' length' :: rest))
        (.error .duplicateHeader) n
  | unplaced {name : String} {start length : Nat} {front rest : List Record} {n : Memory} {r : Record} {e : LoadError}
      (hinside : base + start + length ≤ m.size) (hplaced : Placed base m front n) (hr : r.isContent)
      (hplace : place base n r = (.error e, n)) :
      Ending base m (.header name start length :: (front ++ r :: rest)) (.error e) n
  | finished {name : String} {start length entry : Nat} {front rest : List Record} {n : Memory}
      (hinside : base + start + length ≤ m.size) (hplaced : Placed base m front n) :
      Ending base m (.header name start length :: (front ++ .finish entry :: rest))
        (.ok { name, base, origin := base + start, entry := wrapAddress (base + entry),
               terminal := wrapAddress (base + start + length) }) n

theorem Ending.load_eq {base : Nat} {m n : Memory} {records : List Record} {result : Except LoadError Program}
    (h : Ending base m records result n) : load m records base = (result, n) := by
  cases h with
  | empty => rfl
  | @missingHeader r rest hr =>
    cases r with
    | header name start length => exact absurd rfl (hr name start length)
    | text | modification | finish => rfl
  | tooLarge hlarge => rw [load, if_pos hlarge]
  | @missingEnd name _ _ _ _ hinside hplaced =>
    have hload := hplaced.load_append name hinside []
    rw [List.append_nil] at hload
    rw [hload, loadBody]
  | duplicateHeader hinside hplaced => rw [hplaced.load_append _ hinside, loadBody]
  | unplaced hinside hplaced hr hplace => rw [hplaced.load_append _ hinside, loadBody_of_error hr hplace]
  | finished hinside hplaced => rw [hplaced.load_append _ hinside, loadBody]

theorem exists_ending (base : Nat) (m : Memory) (records : List Record) :
    ∃ result n, Ending base m records result n := by
  cases records with
  | nil => exact ⟨_, _, .empty⟩
  | cons first records =>
    cases first with
    | header name start length =>
      rcases Nat.lt_or_ge m.size (base + start + length) with hlarge | hinside
      · exact ⟨_, _, .tooLarge hlarge⟩
      obtain ⟨front, n, rest, rfl, hplaced, hstop⟩ := exists_placed base m records
      cases rest with
      | nil => exact ⟨_, _, by rw [List.append_nil]; exact .missingEnd hinside hplaced⟩
      | cons r rest =>
        cases r with
        | header => exact ⟨_, _, .duplicateHeader hinside hplaced⟩
        | finish => exact ⟨_, _, .finished hinside hplaced⟩
        | text | modification =>
          obtain ⟨e, he⟩ := hstop _ _ rfl rfl
          exact ⟨_, _, .unplaced hinside hplaced rfl he⟩
    | text | modification | finish => exact ⟨_, _, .missingHeader (by simp)⟩

/-- Loading ends in one of these ways. -/
theorem load_eq_iff {base : Nat} {m n : Memory} {records : List Record} {result : Except LoadError Program} :
    load m records base = (result, n) ↔ Ending base m records result n := by
  constructor
  · intro h
    obtain ⟨_, _, hending⟩ := exists_ending base m records
    rw [hending.load_eq] at h
    cases h
    exact hending
  · exact Ending.load_eq

/-- Records that can all be placed leave the load without its end. -/
theorem Placed.load_unfinished {base start length : Nat} {m n : Memory} {front : List Record} (name : String)
    (hsize : m.size < 0x100000000) (hinside : base + start + length ≤ m.size) (h : Placed base m front n) :
    load m (.header name start length :: front) base = (.error .missingEnd, n) ∧
      n = replay base m (.header name start length :: front) := by
  refine ⟨load_eq_iff.mpr (.missingEnd hinside h), ?_⟩
  rw [replay, List.foldl_cons]
  exact h.eq_replay hsize

/-- Loading replays the records between a header and the first end record, and looks at nothing behind it. Where it
fails, the records before the one that stopped it are replayed and no other; a load that is refused at its first
record leaves memory alone, and a header is refused as a second one only where no end record has come before. -/
theorem load_replays {m : Memory} (hsize : m.size < 0x100000000) (records : List Record) (base : Nat) :
    (∀ program n, load m records base = (.ok program, n) →
      ∃ name start length mid entry rest, records = .header name start length :: (mid ++ .finish entry :: rest) ∧
        (∀ r ∈ mid, r.isContent) ∧ n = replay base m mid ∧
        ∀ rest', load m (.header name start length :: (mid ++ .finish entry :: rest')) base = (.ok program, n)) ∧
    (∀ e n, load m records base = (.error e, n) →
      ∃ before failed, records = before ++ failed ∧ load m before base = (.error .missingEnd, n) ∧
        n = replay base m before ∧
        (failed = [] ∧ e = .missingEnd ∨
          ∃ r rest, failed = r :: rest ∧ e ≠ .missingEnd ∧
            ∀ rest', load m (before ++ r :: rest') base = (.error e, n))) ∧
    (∀ kind n, load m records base = (.error (.missingHeader kind), n) → n = m) ∧
    (∀ name terminal size n, load m records base = (.error (.tooLarge name terminal size), n) → n = m) ∧
    ∀ n, load m records base = (.error .duplicateHeader, n) →
      ∃ name start length mid name' start' length' rest,
        records = .header name start length :: (mid ++ .header name' start' length' :: rest) ∧
        ∀ r ∈ mid, r.isContent := by
  refine ⟨?_, ?_, ?_, ?_, ?_⟩
  · intro program n h
    cases load_eq_iff.mp h with
    | finished hinside hplaced =>
      exact ⟨_, _, _, _, _, _, rfl, hplaced.isContent, hplaced.eq_replay hsize,
        fun _ => load_eq_iff.mpr (.finished hinside hplaced)⟩
  · intro e n h
    cases load_eq_iff.mp h with
    | empty => exact ⟨[], [], rfl, rfl, rfl, .inl ⟨rfl, rfl⟩⟩
    | missingHeader hr =>
      exact ⟨[], _, rfl, rfl, rfl, .inr ⟨_, _, rfl, by simp, fun _ => load_eq_iff.mpr (.missingHeader hr)⟩⟩
    | tooLarge hlarge =>
      exact ⟨[], _, rfl, rfl, rfl, .inr ⟨_, _, rfl, by simp, fun _ => load_eq_iff.mpr (.tooLarge hlarge)⟩⟩
    | @missingEnd name _ _ _ _ hinside hplaced =>
      obtain ⟨hbefore, hreplay⟩ := hplaced.load_unfinished name hsize hinside
      exact ⟨_, [], (List.append_nil _).symm, hbefore, hreplay, .inl ⟨rfl, rfl⟩⟩
    | @duplicateHeader name _ _ _ _ _ _ _ _ hinside hplaced =>
      obtain ⟨hbefore, hreplay⟩ := hplaced.load_unfinished name hsize hinside
      exact ⟨_, _, rfl, hbefore, hreplay,
        .inr ⟨_, _, rfl, by simp, fun _ => load_eq_iff.mpr (.duplicateHeader hinside hplaced)⟩⟩
    | @unplaced name _ _ _ _ _ _ _ hinside hplaced hr hplace =>
      obtain ⟨hbefore, hreplay⟩ := hplaced.load_unfinished name hsize hinside
      have hother : e ≠ .missingEnd := by
        rintro rfl
        cases (place_eq_error hplace).1
      exact ⟨_, _, rfl, hbefore, hreplay,
        .inr ⟨_, _, rfl, hother, fun _ => load_eq_iff.mpr (.unplaced hinside hplaced hr hplace)⟩⟩
  · intro kind n h
    cases load_eq_iff.mp h with
    | missingHeader => rfl
    | unplaced _ _ _ hplace => cases (place_eq_error hplace).1
  · intro name terminal size n h
    cases load_eq_iff.mp h with
    | tooLarge => rfl
    | unplaced _ _ _ hplace => cases (place_eq_error hplace).1
  · intro n h
    cases load_eq_iff.mp h with
    | duplicateHeader _ hplaced => exact ⟨_, _, _, _, _, _, _, _, rfl, hplaced.isContent⟩
    | unplaced _ _ _ hplace => cases (place_eq_error hplace).1

/-- Records of which the second text ends outside a memory of eight bytes when the base is one. -/
def overrunningRecords : List Record :=
  [.header "P" 0 4, .text 0 [0, 5, 0], .modification 1 2, .text 6 [9, 9], .finish 0]

/-- The two records before that one are in place, and the one byte that it has room for is not written. -/
theorem load_stops_at_memory_end :
    ∃ n before failed,
      load (.zeroed 8) overrunningRecords 1 = (.error (.outOfBounds 7 2 ⟨2, 7, 8⟩), n) ∧
      overrunningRecords = before ++ failed ∧ n = replay 1 (.zeroed 8) before ∧
      n.bytes 0 8 = [0, 0, 6, 0, 0, 0, 0, 0] := by
  have hfault : (load (.zeroed 8) overrunningRecords 1).1 = .error (.outOfBounds 7 2 ⟨2, 7, 8⟩) := by decide +kernel
  have hload : load (.zeroed 8) overrunningRecords 1 = (.error (.outOfBounds 7 2 ⟨2, 7, 8⟩), _) := Prod.ext hfault rfl
  have hsize : (Memory.zeroed 8).size < 0x100000000 := by decide
  obtain ⟨-, hfailed, -⟩ := load_replays hsize overrunningRecords 1
  obtain ⟨before, failed, hrecords, -, hreplay, -⟩ := hfailed _ _ hload
  refine ⟨_, before, failed, hload, hrecords, hreplay, ?_⟩
  decide +kernel

end Tribyte
