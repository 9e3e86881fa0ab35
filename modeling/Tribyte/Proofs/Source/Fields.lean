import Mathlib.Data.List.DropRight
import Tribyte.Source.Line

/-! How a line is divided into fields.

A scan for the comment passes over blanks almost unchanged: they only end the protection of a backslash
(`Quoting.released`). So a line whose fields are spaced differently has its comment at the same place and the same
fields (`Typeset.respace`). `Typeset` says what a line is made of: fields, the blanks around and between them, and
what follows from its comment on. Every line is made so (`exists_typeset`), and its parts give its fields
(`Typeset.lineFields_eq`). Text that the scan leaves as it entered (`Neutral`) can stand before any other. -/
namespace Tribyte

open Text

/-! ### Blanks -/

def Blank (cs : List Char) : Prop := ∀ c ∈ cs, isBlank c

instance (cs : List Char) : Decidable (Blank cs) := List.decidableBAll (fun c => isBlank c) cs

theorem isBlank_of_visible {c : Char} (hlow : 0x21 ≤ c.toNat) (hhigh : c.toNat ≤ 0x7E) : isBlank c = false := by
  simp [isBlank]
  omega

/-- A field that stands before another one. -/
structure IsWord (cs : List Char) : Prop where
  ne_nil : cs ≠ []
  solid : ∀ c ∈ cs, isBlank c = false

/-- A field that stands last: it may hold blanks, but neither begins nor ends with one. -/
structure IsTrimmed (cs : List Char) : Prop where
  ne_nil : cs ≠ []
  head : ∀ c ∈ cs.head?, isBlank c = false
  last : ∀ c ∈ cs.getLast?, isBlank c = false

instance (cs : List Char) : Decidable (IsWord cs) :=
  decidable_of_iff (cs ≠ [] ∧ cs.all (!isBlank ·))
    ⟨fun h => ⟨h.1, by simpa using h.2⟩, fun h => ⟨h.ne_nil, by simpa using h.solid⟩⟩

instance (cs : List Char) : Decidable (IsTrimmed cs) :=
  decidable_of_iff (cs ≠ [] ∧ cs.head?.all (!isBlank ·) ∧ cs.getLast?.all (!isBlank ·))
    ⟨fun h => ⟨h.1, by simpa [Option.all_eq_true] using h.2.1, by simpa [Option.all_eq_true] using h.2.2⟩,
      fun h => ⟨h.ne_nil, by simpa [Option.all_eq_true] using h.head, by simpa [Option.all_eq_true] using h.last⟩⟩

theorem IsWord.isTrimmed {cs : List Char} (h : IsWord cs) : IsTrimmed cs :=
  ⟨h.ne_nil, fun c hc => h.solid c (List.mem_of_mem_head? hc), fun c hc => h.solid c (List.mem_of_mem_getLast? hc)⟩

theorem IsTrimmed.append {a b : List Char} (ha : IsTrimmed a) (hb : IsTrimmed b) (gap : List Char) :
    IsTrimmed (a ++ gap ++ b) where
  ne_nil := by simp [ha.ne_nil]
  head := by
    rw [List.append_assoc, List.head?_append_of_ne_nil a ha.ne_nil]
    exact ha.head
  last := by
    rw [List.getLast?_append_of_ne_nil _ hb.ne_nil]
    exact hb.last

theorem head?_dropWhile {p : Char → Bool} {cs : List Char} {c : Char} (h : c ∈ (cs.dropWhile p).head?) :
    p c = false := by
  have := List.head?_dropWhile_not p cs
  rwa [Option.mem_def.mp h] at this

theorem dropWhile_of_head? {p : Char → Bool} {cs : List Char} (h : ∀ c ∈ cs.head?, p c = false) :
    cs.dropWhile p = cs := by
  cases cs with
  | nil => rfl
  | cons c rest => exact List.dropWhile_cons_of_neg (by simp [h c rfl])

theorem trimStart_blank_append {blanks cs : List Char} (hblanks : Blank blanks) (hcs : ∀ c ∈ cs.head?, isBlank c = false) :
    trimStart (blanks ++ cs) = cs := by
  rw [trimStart, List.dropWhile_append_of_pos hblanks, dropWhile_of_head? hcs]

theorem trimEnd_append_blank {cs blanks : List Char} (hcs : ∀ c ∈ cs.getLast?, isBlank c = false)
    (hblanks : Blank blanks) : trimEnd (cs ++ blanks) = cs := by
  have hreverse : ∀ c ∈ blanks.reverse, isBlank c := fun c hc => hblanks c (List.mem_reverse.mp hc)
  rw [trimEnd, List.reverse_append, List.dropWhile_append_of_pos hreverse,
    dropWhile_of_head? (by rwa [List.head?_reverse]), List.reverse_reverse]

/-- Blanks on either side go, and nothing else. -/
theorem trim_eq {lead body trail : List Char} (hlead : Blank lead) (hbody : body = [] ∨ IsTrimmed body)
    (htrail : Blank trail) : trim (lead ++ body ++ trail) = body := by
  rcases hbody with rfl | hbody
  · have hall : Blank (lead ++ [] ++ trail) := by
      intro c hc
      rw [List.append_nil] at hc
      exact (List.mem_append.mp hc).elim (hlead c) (htrail c)
    rw [trim, trimStart, List.dropWhile_eq_nil_iff.mpr hall]
    rfl
  · have hhead : ∀ c ∈ (body ++ trail).head?, isBlank c = false := by
      rw [List.head?_append_of_ne_nil body hbody.ne_nil]
      exact hbody.head
    rw [trim, List.append_assoc, trimStart_blank_append hlead hhead, trimEnd_append_blank hbody.last htrail]

theorem exists_trim (cs : List Char) :
    ∃ lead trail, Blank lead ∧ Blank trail ∧ cs = lead ++ trim cs ++ trail ∧ (trim cs = [] ∨ IsTrimmed (trim cs)) := by
  have hstart : cs = cs.takeWhile isBlank ++ trimStart cs := List.takeWhile_append_dropWhile.symm
  have hend : trimStart cs = trim cs ++ (trimStart cs).rtakeWhile isBlank :=
    (List.rdropWhile_append_rtakeWhile ..).symm
  refine ⟨cs.takeWhile isBlank, (trimStart cs).rtakeWhile isBlank, fun c hc => List.mem_takeWhile_imp hc,
    fun c hc => List.mem_rtakeWhile_imp hc, ?_, ?_⟩
  · rw [List.append_assoc, ← hend]
    exact hstart
  · by_cases hne : trim cs = []
    · exact .inl hne
    · refine .inr ⟨hne, ?_, ?_⟩
      · intro c hc
        rw [← List.head?_append_of_ne_nil _ hne, ← hend] at hc
        exact head?_dropWhile hc
      · intro c hc
        rw [trim, trimEnd, List.getLast?_reverse] at hc
        exact head?_dropWhile hc

/-! ### Fields -/

/-- The blanks around and between at most three fields. -/
structure Spacing where
  lead : List Char
  first : List Char
  second : List Char
  trail : List Char
  lead_blank : Blank lead
  first_blank : Blank first
  first_ne_nil : first ≠ []
  second_blank : Blank second
  second_ne_nil : second ≠ []
  trail_blank : Blank trail

/-- What the fields of a line can be. -/
def AreFields : List (List Char) → Prop
  | [] => True
  | [a] => IsWord a
  | [a, b] => IsWord a ∧ IsWord b
  | [a, b, c] => IsWord a ∧ IsWord b ∧ IsTrimmed c
  | _ => False

namespace Spacing

/-- Fields with the blanks between them. -/
def join (s : Spacing) : List (List Char) → List Char
  | [] => []
  | [a] => a
  | [a, b] => a ++ s.first ++ b
  | a :: b :: c :: _ => a ++ s.first ++ (b ++ s.second ++ c)

/-- Fields with the blanks around and between them. -/
def write (s : Spacing) (fields : List (List Char)) : List Char := s.lead ++ s.join fields ++ s.trail

/-- One space between fields. -/
def single : Spacing where
  lead := []
  first := [' ']
  second := [' ']
  trail := []
  lead_blank := by decide
  first_blank := by decide
  first_ne_nil := by decide
  second_blank := by decide
  second_ne_nil := by decide
  trail_blank := by decide

end Spacing

theorem takeWhile_solid {a rest : List Char} (ha : ∀ c ∈ a, isBlank c = false) (hrest : ∀ c ∈ rest.head?, isBlank c) :
    (a ++ rest).takeWhile (!isBlank ·) = a ∧ (a ++ rest).dropWhile (!isBlank ·) = rest := by
  have hsolid : ∀ c ∈ a, (!isBlank c) = true := fun c hc => by simp [ha c hc]
  rw [List.takeWhile_append_of_pos hsolid, List.dropWhile_append_of_pos hsolid,
    dropWhile_of_head? fun c hc => by simp [hrest c hc]]
  cases rest with
  | nil => simp
  | cons c rest => simp [hrest c rfl]

theorem splitField_word {a : List Char} (ha : IsWord a) : splitField a = (a, []) := by
  obtain ⟨htake, hdrop⟩ := @takeWhile_solid a [] ha.solid (by simp)
  rw [List.append_nil] at htake hdrop
  rw [splitField, htake, hdrop]
  rfl

theorem splitField_append {a gap rest : List Char} (ha : IsWord a) (hgap : Blank gap) (hne : gap ≠ [])
    (hrest : IsTrimmed rest) : splitField (a ++ gap ++ rest) = (a, rest) := by
  have hhead : ∀ c ∈ (gap ++ rest).head?, isBlank c := by
    rw [List.head?_append_of_ne_nil gap hne]
    exact fun c hc => hgap c (List.mem_of_mem_head? hc)
  obtain ⟨htake, hdrop⟩ := takeWhile_solid ha.solid hhead
  rw [splitField, List.append_assoc, htake, hdrop, trimStart_blank_append hgap hrest.head]

/-- Text either is one word or begins with one. -/
theorem IsTrimmed.word_or_append {cs : List Char} (h : IsTrimmed cs) :
    IsWord cs ∨ ∃ a gap rest, cs = a ++ gap ++ rest ∧ IsWord a ∧ Blank gap ∧ gap ≠ [] ∧ IsTrimmed rest := by
  obtain ⟨a, ha⟩ : ∃ a, cs.takeWhile (!isBlank ·) = a := ⟨_, rfl⟩
  obtain ⟨after, hafter⟩ : ∃ after, cs.dropWhile (!isBlank ·) = after := ⟨_, rfl⟩
  have hcs : cs = a ++ after := by rw [← ha, ← hafter, List.takeWhile_append_dropWhile]
  have hsolid : ∀ c ∈ a, isBlank c = false := by
    intro c hc
    rw [← ha] at hc
    simpa using List.mem_takeWhile_imp hc
  by_cases hnil : after = []
  · rw [hnil, List.append_nil] at hcs
    exact .inl ⟨h.ne_nil, hcs ▸ hsolid⟩
  have hblank : ∀ c ∈ after.head?, isBlank c := by
    intro c hc
    rw [← hafter] at hc
    simpa using head?_dropWhile hc
  have hane : a ≠ [] := by
    intro ha
    rw [ha, List.nil_append] at hcs
    obtain ⟨c, rest, hcons⟩ := List.exists_cons_of_ne_nil hnil
    have hsolid := h.head c (by simp [hcs, hcons])
    rw [hblank c (by simp [hcons])] at hsolid
    cases hsolid
  have hsplit : after = after.takeWhile isBlank ++ trimStart after := List.takeWhile_append_dropWhile.symm
  -- The text does not end with a blank, so something follows the blanks.
  have hrest : trimStart after ≠ [] := by
    intro hrest
    have hend : after.getLast hnil ∈ cs.getLast? := by
      simp [hcs, List.getLast?_append_of_ne_nil _ hnil, List.getLast?_eq_some_getLast hnil]
    have hlast := h.last (after.getLast hnil) hend
    rw [List.dropWhile_eq_nil_iff.mp hrest _ (List.getLast_mem hnil)] at hlast
    cases hlast
  refine .inr ⟨a, after.takeWhile isBlank, trimStart after, ?_, ⟨hane, hsolid⟩, fun c hc => List.mem_takeWhile_imp hc,
    ?_, hrest, fun c hc => head?_dropWhile hc, ?_⟩
  · rw [List.append_assoc, ← hsplit]
    exact hcs
  · intro hgap
    obtain ⟨c, rest, hcons⟩ := List.exists_cons_of_ne_nil hnil
    have := hblank c (by simp [hcons])
    simp [hcons, this] at hgap
  · rw [← List.getLast?_append_of_ne_nil _ hrest, ← hsplit, ← List.getLast?_append_of_ne_nil a hnil, ← hcs]
    exact h.last

theorem splitFields_join (s : Spacing) {fields : List (List Char)} (h : AreFields fields) :
    splitFields (s.join fields) = fields := by
  match fields, h with
  | [], _ => rfl
  | [a], ha =>
    rw [Spacing.join, splitFields, splitField_word ha]
    simp [ha.ne_nil, splitField, trimStart]
  | [a, b], ⟨ha, hb⟩ =>
    rw [Spacing.join, splitFields, splitField_append ha s.first_blank s.first_ne_nil hb.isTrimmed]
    simp [ha.ne_nil, splitField_word hb, hb.ne_nil]
  | [a, b, c], ⟨ha, hb, hc⟩ =>
    have hrest := hb.isTrimmed.append hc s.second
    rw [Spacing.join, splitFields, splitField_append ha s.first_blank s.first_ne_nil hrest]
    simp only [ha.ne_nil, splitField_append hb s.second_blank s.second_ne_nil hc, hb.ne_nil, hc.ne_nil, if_false]

theorem exists_join {cs : List Char} (h : cs = [] ∨ IsTrimmed cs) {lead trail : List Char} (hlead : Blank lead)
    (htrail : Blank trail) :
    ∃ (s : Spacing) (fields : List (List Char)),
      s.lead = lead ∧ s.trail = trail ∧ AreFields fields ∧ cs = s.join fields := by
  let outer : Spacing := { Spacing.single with lead, trail, lead_blank := hlead, trail_blank := htrail }
  rcases h with rfl | h
  · exact ⟨outer, [], rfl, rfl, trivial, rfl⟩
  rcases h.word_or_append with h | ⟨a, first, rest, rfl, ha, hfirst, hfirstNe, hrest⟩
  · exact ⟨outer, [cs], rfl, rfl, h, rfl⟩
  let between : Spacing := { outer with first, first_blank := hfirst, first_ne_nil := hfirstNe }
  rcases hrest.word_or_append with hb | ⟨b, second, c, rfl, hb, hsecond, hsecondNe, hc⟩
  · exact ⟨between, [a, rest], rfl, rfl, ⟨ha, hb⟩, rfl⟩
  · exact ⟨{ between with second, second_blank := hsecond, second_ne_nil := hsecondNe }, [a, b, c], rfl, rfl,
      ⟨ha, hb, hc⟩, rfl⟩

/-! ### Quotes and comments -/

namespace Quoting

/-- Where a scan stands after some text. -/
def after (q : Quoting) (cs : List Char) : Quoting := cs.foldl next q

/-- Where a scan stands after blanks: they take the protection of a backslash, and nothing else. -/
def released : Quoting → Quoting
  | guarded => inside
  | q => q

theorem after_append (q : Quoting) (a b : List Char) : q.after (a ++ b) = (q.after a).after b := List.foldl_append ..

theorem released_eq_outside {q : Quoting} : q.released = outside ↔ q = outside := by
  cases q <;> simp [released]

theorem released_released (q : Quoting) : q.released.released = q.released := by
  cases q <;> rfl

theorem next_blank (q : Quoting) {c : Char} (h : isBlank c) : q.next c = q.released := by
  have hquote : c ≠ '\'' := by
    intro hc
    subst hc
    exact absurd h (by decide)
  have hbackslash : c ≠ '\\' := by
    intro hc
    subst hc
    exact absurd h (by decide)
  cases q <;> simp [next, released, hquote, hbackslash]

theorem after_blank (q : Quoting) {cs : List Char} (h : Blank cs) (hne : cs ≠ []) : q.after cs = q.released := by
  induction cs generalizing q with
  | nil => exact absurd rfl hne
  | cons c rest ih =>
    have hrest : Blank rest := fun d hd => h d (List.mem_cons_of_mem c hd)
    rw [after, List.foldl_cons, next_blank q (h c (List.mem_cons_self ..))]
    by_cases hnil : rest = []
    · rw [hnil, List.foldl_nil]
    · exact (ih q.released hrest hnil).trans q.released_released

theorem after_blank_released (q : Quoting) {cs : List Char} (h : Blank cs) : (q.after cs).released = q.released := by
  by_cases hne : cs = []
  · rw [hne]
    rfl
  · rw [after_blank q h hne, released_released]

end Quoting

/-- No comment begins in the text, for a scan that stands at `q`. -/
def Clear (q : Quoting) (cs : List Char) : Prop := stripComment q cs = cs

instance (q : Quoting) (cs : List Char) : Decidable (Clear q cs) := inferInstanceAs (Decidable (stripComment q cs = cs))

theorem clear_nil (q : Quoting) : Clear q [] := rfl

theorem clear_cons_iff {q : Quoting} {c : Char} {rest : List Char} :
    Clear q (c :: rest) ↔ ¬(q = .outside ∧ c = '#') ∧ Clear (q.next c) rest := by
  unfold Clear
  rw [stripComment]
  split <;> simp_all

theorem clear_append_iff {q : Quoting} {a b : List Char} : Clear q (a ++ b) ↔ Clear q a ∧ Clear (q.after a) b := by
  induction a generalizing q with
  | nil => simp [clear_nil, Quoting.after]
  | cons c rest ih =>
    rw [List.cons_append, clear_cons_iff, clear_cons_iff, ih, and_assoc]
    rfl

theorem clear_blank (q : Quoting) {cs : List Char} (h : Blank cs) : Clear q cs := by
  induction cs generalizing q with
  | nil => exact clear_nil q
  | cons c rest ih =>
    refine clear_cons_iff.mpr ⟨?_, ih _ fun d hd => h d (List.mem_cons_of_mem c hd)⟩
    intro hc
    obtain ⟨-, rfl⟩ := hc
    exact absurd (h '#' (List.mem_cons_self ..)) (by decide)

theorem stripComment_append {q : Quoting} {a : List Char} (h : Clear q a) (b : List Char) :
    stripComment q (a ++ b) = a ++ stripComment (q.after a) b := by
  induction a generalizing q with
  | nil => rfl
  | cons c rest ih =>
    obtain ⟨hc, hrest⟩ := clear_cons_iff.mp h
    rw [List.cons_append, stripComment, if_neg hc, ih hrest]
    rfl

/-- A comment, or the end of the line. -/
theorem stripComment_eq_nil_iff {q : Quoting} {cs : List Char} :
    stripComment q cs = [] ↔ cs = [] ∨ q = .outside ∧ ∃ text, cs = '#' :: text := by
  cases cs with
  | nil => simp [stripComment]
  | cons c rest => simp [stripComment]

theorem stripComment_split (q : Quoting) (cs : List Char) :
    ∃ comment, cs = stripComment q cs ++ comment ∧ Clear q (stripComment q cs) ∧
      stripComment (q.after (stripComment q cs)) comment = [] := by
  induction cs generalizing q with
  | nil => exact ⟨[], rfl, clear_nil q, rfl⟩
  | cons c rest ih =>
    by_cases hc : q = .outside ∧ c = '#'
    · refine ⟨c :: rest, ?_, ?_, ?_⟩
      · simp [stripComment, hc]
      · simp [stripComment, hc, clear_nil]
      · simp [stripComment, hc, Quoting.after]
    · obtain ⟨comment, hrest, hclear, hend⟩ := ih (q.next c)
      rw [stripComment, if_neg hc]
      exact ⟨comment, by rw [List.cons_append, ← hrest], clear_cons_iff.mpr ⟨hc, hclear⟩, hend⟩

/-! ### Lines -/

/-- A scan of fields from `q`, over any blanks between them, meets no comment. -/
def ClearFields : Quoting → List (List Char) → Prop
  | _, [] => True
  | q, a :: rest => Clear q a ∧ ClearFields (q.after a).released rest

/-- Where such a scan stands after the fields and blanks behind them. -/
def Quoting.afterFields : Quoting → List (List Char) → Quoting
  | q, [] => q
  | q, a :: rest => afterFields (q.after a).released rest

namespace Spacing

variable (s : Spacing) {fields : List (List Char)}

theorem after_lead : Quoting.outside.after s.lead = .outside := by
  rw [← Quoting.released_eq_outside, Quoting.after_blank_released _ s.lead_blank]
  rfl

theorem clear_write_iff (h : AreFields fields) : Clear .outside (s.write fields) ↔ ClearFields .outside fields := by
  have hfirst (q : Quoting) := q.after_blank s.first_blank s.first_ne_nil
  have hsecond (q : Quoting) := q.after_blank s.second_blank s.second_ne_nil
  unfold write
  match fields, h with
  | [], _ | [a], _ | [a, b], _ | [a, b, c], _ =>
    simp [join, ClearFields, clear_append_iff, clear_blank, after_lead, hfirst, hsecond, s.lead_blank, s.first_blank,
      s.second_blank, s.trail_blank]

theorem after_write (h : AreFields fields) :
    (Quoting.outside.after (s.write fields)).released = Quoting.outside.afterFields fields := by
  have hfirst (q : Quoting) := q.after_blank s.first_blank s.first_ne_nil
  have hsecond (q : Quoting) := q.after_blank s.second_blank s.second_ne_nil
  unfold write
  match fields, h with
  | [], _ =>
    rw [join, List.append_nil, Quoting.after_append, after_lead, Quoting.after_blank_released _ s.trail_blank]
    rfl
  | [a], _ | [a, b], _ | [a, b, c], _ =>
    simp only [join, Quoting.afterFields, Quoting.after_append, Quoting.after_blank_released _ s.trail_blank, after_lead,
      hfirst, hsecond]

theorem join_trimmed (h : AreFields fields) : s.join fields = [] ∨ IsTrimmed (s.join fields) := by
  match fields, h with
  | [], _ => exact .inl rfl
  | [a], ha => exact .inr ha.isTrimmed
  | [a, b], ⟨ha, hb⟩ => exact .inr (ha.isTrimmed.append hb.isTrimmed s.first)
  | [a, b, c], ⟨ha, hb, hc⟩ => exact .inr (ha.isTrimmed.append (hb.isTrimmed.append hc s.second) s.first)

end Spacing

/-- A line of these fields and this comment, if any, spaced so. -/
structure Typeset (s : Spacing) (fields : List (List Char)) (comment : List Char) : Prop where
  areFields : AreFields fields
  clear : Clear .outside (s.write fields)
  ends : stripComment (Quoting.outside.after (s.write fields)) comment = []

theorem exists_typeset (line : List Char) :
    ∃ s fields comment, Typeset s fields comment ∧ line = s.write fields ++ comment := by
  obtain ⟨comment, hline, hclear, hcomment⟩ := stripComment_split .outside line
  obtain ⟨lead, trail, hlead, htrail, hkept, htrim⟩ := exists_trim (stripComment .outside line)
  obtain ⟨s, fields, rfl, rfl, hfields, hjoin⟩ := exists_join htrim hlead htrail
  rw [hjoin] at hkept
  have hwrite : stripComment .outside line = s.write fields := hkept
  rw [hwrite] at hline hclear hcomment
  exact ⟨s, fields, comment, ⟨hfields, hclear, hcomment⟩, hline⟩

namespace Typeset

variable {s : Spacing} {fields : List (List Char)} {comment : List Char} (h : Typeset s fields comment)
include h

theorem stripComment_eq : stripComment .outside (s.write fields ++ comment) = s.write fields := by
  rw [stripComment_append h.clear, h.ends, List.append_nil]

theorem lineFields_eq : lineFields (s.write fields ++ comment) = fields.map String.ofList := by
  rw [lineFields, h.stripComment_eq, Spacing.write, trim_eq s.lead_blank (s.join_trimmed h.areFields) s.trail_blank,
    splitFields_join s h.areFields]

/-- Blanks can be exchanged for others. -/
theorem respace (s' : Spacing) : Typeset s' fields comment := by
  refine ⟨h.areFields, ?_, ?_⟩
  · exact (s'.clear_write_iff h.areFields).mpr ((s.clear_write_iff h.areFields).mp h.clear)
  · have houtside : Quoting.outside.after (s'.write fields) = .outside ↔
        Quoting.outside.after (s.write fields) = .outside := by
      rw [← Quoting.released_eq_outside, s'.after_write h.areFields, ← s.after_write h.areFields,
        Quoting.released_eq_outside]
    rw [stripComment_eq_nil_iff, houtside, ← stripComment_eq_nil_iff]
    exact h.ends

end Typeset

/-- Blanks at the end of a line do not matter. -/
theorem lineFields_append_blank (line : List Char) {blanks : List Char} (h : Blank blanks) :
    lineFields (line ++ blanks) = lineFields line := by
  obtain ⟨s, fields, comment, htypeset, rfl⟩ := exists_typeset line
  rw [htypeset.lineFields_eq, List.append_assoc]
  rcases stripComment_eq_nil_iff.mp htypeset.ends with rfl | ⟨houtside, text, rfl⟩
  · let s' : Spacing := { s with
      trail := s.trail ++ blanks
      trail_blank := fun c hc => (List.mem_append.mp hc).elim (s.trail_blank c) (h c) }
    have hwrite : s.write fields ++ ([] ++ blanks) = s'.write fields ++ [] := by
      rw [List.nil_append, List.append_nil, Spacing.write, List.append_assoc]
      rfl
    rw [hwrite]
    exact (htypeset.respace s').lineFields_eq
  · have hcomment : Typeset s fields ('#' :: (text ++ blanks)) :=
      ⟨htypeset.areFields, htypeset.clear, stripComment_eq_nil_iff.mpr (.inr ⟨houtside, _, rfl⟩)⟩
    exact hcomment.lineFields_eq

/-- A scan that comes in outside quotes goes out outside quotes, and meets no comment. -/
def Neutral (cs : List Char) : Prop := Clear .outside cs ∧ Quoting.outside.after cs = .outside

instance (cs : List Char) : Decidable (Neutral cs) :=
  inferInstanceAs (Decidable (Clear .outside cs ∧ Quoting.outside.after cs = .outside))

theorem Neutral.append {a b : List Char} (ha : Neutral a) (hb : Neutral b) : Neutral (a ++ b) := by
  refine ⟨clear_append_iff.mpr ⟨ha.1, ?_⟩, ?_⟩
  · rw [ha.2]
    exact hb.1
  · rw [Quoting.after_append, ha.2, hb.2]

theorem neutral_of_forall {cs : List Char} (h : ∀ c ∈ cs, c ≠ '#' ∧ c ≠ '\'') : Neutral cs := by
  induction cs with
  | nil => exact ⟨clear_nil _, rfl⟩
  | cons c rest ih =>
    obtain ⟨hmark, hquote⟩ := h c (List.mem_cons_self ..)
    have hc : Neutral [c] := ⟨clear_cons_iff.mpr ⟨fun h => hmark h.2, clear_nil _⟩, if_neg hquote⟩
    exact hc.append (ih fun d hd => h d (List.mem_cons_of_mem c hd))

/-- Neutral fields can be spaced in any way. -/
theorem Spacing.lineFields_write (s : Spacing) {fields : List (List Char)} (hfields : AreFields fields)
    (hneutral : ∀ cs ∈ fields, Neutral cs) : lineFields (s.write fields) = fields.map String.ofList := by
  have hclear : ClearFields .outside fields := by
    clear hfields
    induction fields with
    | nil => trivial
    | cons cs rest ih =>
      obtain ⟨⟨hclear, hafter⟩, hrest⟩ := List.forall_mem_cons.mp hneutral
      refine ⟨hclear, ?_⟩
      rw [hafter]
      exact ih hrest
  have htypeset : Typeset s fields [] := ⟨hfields, (s.clear_write_iff hfields).mpr hclear, rfl⟩
  rw [← List.append_nil (s.write fields), htypeset.lineFields_eq]

/-- What stands behind neutral text is read as it is alone. -/
theorem Typeset.of_neutral {front kept comment : List Char} (hfront : Neutral front) (hclear : Clear .outside kept)
    (hends : stripComment (Quoting.outside.after kept) comment = []) (s : Spacing) {fields : List (List Char)}
    (hfields : AreFields fields) (hwrite : s.write fields = front ++ kept) : Typeset s fields comment := by
  refine ⟨hfields, ?_, ?_⟩
  · rw [hwrite]
    exact clear_append_iff.mpr ⟨hfront.1, hfront.2.symm ▸ hclear⟩
  · rw [hwrite, Quoting.after_append, hfront.2]
    exact hends

/-- Behind two words the rest of a line is one field, up to its comment and without the blanks around it. -/
theorem lineFields_words {a b : List Char} (ha : IsWord a) (hb : IsWord b) (hna : Neutral a) (hnb : Neutral b)
    (rest : List Char) :
    lineFields (a ++ ' ' :: (b ++ ' ' :: rest)) = String.ofList a :: String.ofList b ::
      if trim (stripComment .outside rest) = [] then [] else [String.ofList (trim (stripComment .outside rest))] := by
  obtain ⟨comment, hrest, hclear, hends⟩ := stripComment_split .outside rest
  obtain ⟨lead, trail, hlead, htrail, hkept, htrim⟩ := exists_trim (stripComment .outside rest)
  generalize stripComment .outside rest = kept at *
  generalize trim kept = c at *
  have hfront : Neutral (a ++ [' '] ++ (b ++ [' '])) := (hna.append (by decide)).append (hnb.append (by decide))
  have hline : a ++ ' ' :: (b ++ ' ' :: rest) = a ++ [' '] ++ (b ++ [' ']) ++ kept ++ comment := by
    rw [hrest]
    simp
  have htypeset := Typeset.of_neutral hfront hclear hends
  have hblank : Blank (' ' :: lead) := by
    intro d hd
    rcases List.mem_cons.mp hd with rfl | hd
    · rfl
    · exact hlead d hd
  rcases htrim with rfl | hc
  · let s : Spacing := { Spacing.single with
      trail := ' ' :: lead ++ trail
      trail_blank := fun d hd => (List.mem_append.mp hd).elim (hblank d) (htrail d) }
    have hfields : AreFields [a, b] := ⟨ha, hb⟩
    have hwrite : s.write [a, b] = a ++ [' '] ++ (b ++ [' ']) ++ kept := by
      rw [hkept]
      simp [s, Spacing.write, Spacing.join, Spacing.single]
    rw [hline, ← hwrite, (htypeset s hfields hwrite).lineFields_eq]
    rfl
  · let s : Spacing := { Spacing.single with
      second := ' ' :: lead, trail, second_blank := hblank, second_ne_nil := List.cons_ne_nil _ _, trail_blank := htrail }
    have hfields : AreFields [a, b, c] := ⟨ha, hb, hc⟩
    have hwrite : s.write [a, b, c] = a ++ [' '] ++ (b ++ [' ']) ++ kept := by
      rw [hkept]
      simp [s, Spacing.write, Spacing.join, Spacing.single]
    rw [hline, ← hwrite, (htypeset s hfields hwrite).lineFields_eq, if_neg hc.ne_nil]
    rfl

/-- Text that is all one field. -/
theorem trim_stripComment_eq_self {cs : List Char} (h : trim (stripComment .outside cs) = cs) :
    Clear .outside cs ∧ (cs = [] ∨ IsTrimmed cs) := by
  obtain ⟨comment, hcs, -⟩ := stripComment_split .outside cs
  obtain ⟨lead, trail, -, -, hkept, htrim⟩ := exists_trim (stripComment .outside cs)
  rw [h] at hkept htrim
  have hlength := congrArg List.length hcs
  have hlength' := congrArg List.length hkept
  simp only [List.length_append] at hlength hlength'
  have hnil : comment = [] := List.eq_nil_of_length_eq_zero (by omega)
  rw [hnil, List.append_nil] at hcs
  exact ⟨hcs.symm, htrim⟩

/-- Fields with one space between them are read as these fields. -/
theorem lineFields_intercalate (line : List Char) :
    lineFields (" ".intercalate (lineFields line)).toList = lineFields line := by
  obtain ⟨s, fields, comment, htypeset, rfl⟩ := exists_typeset line
  have hsingle : Typeset .single fields [] := by
    have := htypeset.respace .single
    exact ⟨this.areFields, this.clear, rfl⟩
  have hjoin : [' '].intercalate fields = Spacing.single.write fields ++ [] := by
    match fields, htypeset.areFields with
    | [], _ | [a], _ | [a, b], _ | [a, b, c], _ => simp [Spacing.write, Spacing.join, Spacing.single, List.intercalate]
  rw [htypeset.lineFields_eq, String.toList_intercalate, List.map_map]
  have hid : String.toList ∘ String.ofList = id := funext fun _ => String.toList_ofList
  rw [hid, List.map_id]
  exact (congrArg lineFields hjoin).trans hsingle.lineFields_eq

end Tribyte
