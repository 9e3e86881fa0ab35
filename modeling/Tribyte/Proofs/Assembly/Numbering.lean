import Tribyte.Assembly.ObjectCode
import Tribyte.Proofs.Checked

/-! Line numbers and assembly.

Numbers of lines go into statements and symbols and come out in errors only: a text whose lines have other numbers
gives the same records, or the same error with the other numbers in it (`assemble_renumber`). Each part of assembly is
run side by side with itself on the other numbers. -/
namespace Tribyte

open Checked (Related)

/-! ### Other numbers -/

section Renumber

variable (f : Nat → Nat)

/-- The error with its line numbers replaced, that of an earlier definition included. -/
def SourceError.renumber : SourceError → SourceError
  | shape line fields => shape (f line) fields
  | unknownOperation line name => unknownOperation (f line) name
  | invalidLabel line label => invalidLabel (f line) label
  | duplicateLabel line label first => duplicateLabel (f line) label (f first)
  | operand line mnemonic fault => operand (f line) mnemonic fault
  | undefinedSymbol line symbol => undefinedSymbol (f line) symbol
  | tooFewStatements count => tooFewStatements count
  | firstNotStart line => firstNotStart (f line)
  | lastNotEnd line => lastNotEnd (f line)
  | misplaced line mnemonic => misplaced (f line) mnemonic
  | noObjectCode line mnemonic => noObjectCode (f line) mnemonic

def SourceLine.renumber (l : SourceLine) : SourceLine := { l with number := f l.number }

def Statement.renumber (s : Statement) : Statement := { s with line := f s.line }

def Symbol.renumber (s : Symbol) : Symbol := { s with line := f s.line }

def Outline.renumber (o : Outline) : Outline :=
  { o with body := o.body.map (Statement.renumber f), last := o.last.renumber f }

/-- Tables with the same symbols, whose line numbers are replaced. -/
def SymbolTable.Renumbered (t u : SymbolTable) : Prop :=
  ∀ name, u.symbol? name = (t.symbol? name).map (Symbol.renumber f)

structure Layout.Renumbered (l m : Layout) : Prop where
  symbols : l.symbols.Renumbered f m.symbols
  statements : m.statements.toList = l.statements.toList.map (Statement.renumber f)
  start : m.start = l.start
  counter : m.counter = l.counter

/-- Two computations with the same outcome, up to the line numbers in an error. -/
abbrev Renumbering {α β : Type} (R : α → β → Prop) : Except SourceError α → Except SourceError β → Prop :=
  Related (fun e e' => e' = e.renumber f) R

end Renumber

variable {f : Nat → Nat}

/-! ### Statements -/

theorem Parts.named_renumber (line : Nat) (label : Option String) (name : String) (operand : Option String) :
    Renumbering f Eq (named line label name operand) (named (f line) label name operand) := by
  unfold named
  split
  · exact .ok rfl
  · exact .error rfl

theorem Parts.ofFields_renumber (line : Nat) (fields : List String) :
    Renumbering f Eq (ofFields line fields) (ofFields (f line) fields) := by
  match fields with
  | [] => exact .error rfl
  | [name] => exact named_renumber line none name none
  | [first, second] =>
    unfold ofFields
    dsimp only
    split
    · exact .ok rfl
    · exact named_renumber line (some first) second none
  | [label, name, operand] => exact named_renumber line (some label) name (some operand)
  | _ :: _ :: _ :: _ :: _ => exact .error rfl

theorem checkLabel_renumber (line : Nat) (label : Option String) :
    Renumbering f Eq (checkLabel line label) (checkLabel (f line) label) := by
  unfold checkLabel
  split
  · exact .ok rfl
  · split
    · exact .ok rfl
    · exact .error rfl

theorem Statement.parse_renumber (fields : List String) (location line : Nat) :
    Renumbering f (fun s t => t = s.renumber f) (parse fields location line) (parse fields location (f line)) := by
  unfold parse
  refine (Parts.ofFields_renumber line fields).bind ?_
  intro parts _ hparts
  subst hparts
  refine (checkLabel_renumber line parts.label).bind ?_
  intro _ _ _
  split
  · exact .error rfl
  · exact .ok rfl

/-! ### Layouts -/

theorem SymbolTable.Renumbered.address? {t u : SymbolTable} (h : t.Renumbered f u) (name : String) :
    u.address? name = t.address? name := by
  rw [SymbolTable.address?, h name, Option.map_map]
  rfl

theorem SymbolTable.Renumbered.insert {t u : SymbolTable} (h : t.Renumbered f u) {name : String} (symbol : Symbol)
    (ht : t.symbol? name = none) (hu : u.symbol? name = none) :
    (t.insert name symbol ht).Renumbered f (u.insert name (symbol.renumber f) hu) := by
  intro other
  rw [symbol?_insert, symbol?_insert, h other]
  split <;> rfl

theorem SymbolTable.Renumbered.defineLabel {t u : SymbolTable} (h : t.Renumbered f u) (s : Statement) :
    Renumbering f (SymbolTable.Renumbered f) (Layout.defineLabel t s) (Layout.defineLabel u (s.renumber f)) := by
  unfold Layout.defineLabel Statement.renumber
  dsimp only
  cases s.label with
  | none => exact .ok h
  | some label =>
    have hsymbol := h label
    cases hentry : t.symbol? label with
    | none =>
      rw [hentry] at hsymbol
      simp only [define_of_none hentry, define_of_none hsymbol]
      exact .ok (h.insert ⟨s.location, s.line⟩ hentry hsymbol)
    | some earlier =>
      rw [hentry] at hsymbol
      simp only [define_of_some hentry, define_of_some hsymbol]
      exact .error rfl

namespace Layout

theorem Renumbered.advance {l m : Layout} (h : l.Renumbered f m) (s : Statement) :
    Renumbering f Eq (l.advance s) (m.advance (s.renumber f)) := by
  obtain ⟨mnemonic, operation, location, line, label, operand, payload⟩ := s
  simp only [Layout.advance, Statement.renumber, Statement.size, h.counter, h.start]
  cases payload with
  | start name address => exact .ok rfl
  | instruction | word | bytes | finish | reserve =>
    exact .ite (fun _ => .error rfl) (fun _ => .ok rfl)

theorem Renumbered.extend {l m : Layout} (h : l.Renumbered f m) (line : SourceLine) :
    Renumbering f (Renumbered f) (l.extend line) (m.extend (line.renumber f)) := by
  unfold Layout.extend
  rw [h.counter]
  refine (Statement.parse_renumber line.fields l.counter line.number).bind ?_
  intro s _ hs
  subst hs
  refine (h.advance s).bind ?_
  intro ⟨start, counter⟩ _ hadvance
  subst hadvance
  refine (h.symbols.defineLabel s).bind fun hsymbols => .ok ⟨hsymbols, ?_, rfl, rfl⟩
  rw [Array.toList_push, Array.toList_push, h.statements, List.map_append]
  rfl

theorem ofLines_renumber (lines : List SourceLine) :
    Renumbering f (Renumbered f) (ofLines lines) (ofLines (lines.map (SourceLine.renumber f))) := by
  refine Related.foldlM (SourceLine.renumber f) (fun h line => h.extend line) ?_ lines
  exact ⟨fun _ => rfl, rfl, rfl, rfl⟩

end Layout

/-! ### Object code -/

theorem Outline.ofStatements_renumber (ss : List Statement) :
    Renumbering f (fun o p => p = o.renumber f) (ofStatements ss) (ofStatements (ss.map (Statement.renumber f))) := by
  match ss with
  | [] | [_] | [_, _] => exact .error rfl
  | first :: second :: third :: rest =>
    have hlast : (third.renumber f :: rest.map (Statement.renumber f)).getLast (by simp) =
        ((third :: rest).getLast (by simp)).renumber f := List.getLast_map (l := third :: rest) _
    have hbody : (second.renumber f :: third.renumber f :: rest.map (Statement.renumber f)).dropLast =
        (second :: third :: rest).dropLast.map (Statement.renumber f) :=
      (List.map_dropLast (l := second :: third :: rest)).symm
    have hboundary : isBoundary ∘ Statement.renumber f = isBoundary := rfl
    simp only [List.map_cons, ofStatements, hlast, hbody, List.find?_map, hboundary]
    generalize (third :: rest).getLast (by simp) = last
    generalize (second :: third :: rest).dropLast = body
    obtain ⟨mnemonic, operation, location, line, label, operand, payload⟩ := first
    simp only [Statement.renumber]
    cases payload with
    | instruction | word | bytes | finish | reserve => exact .error rfl
    | start name start =>
      refine .ite (fun _ => .error rfl) fun _ => ?_
      cases body.find? isBoundary with
      | none => exact .ok rfl
      | some stray => exact .error rfl

theorem blocksFrom_renumber (block : List Statement) (size : Nat) (ss : List Statement) :
    blocksFrom (block.map (Statement.renumber f)) size (ss.map (Statement.renumber f)) =
      (blocksFrom block size ss).map (List.map (Statement.renumber f)) := by
  have hsize (s : Statement) : (s.renumber f).size = s.size := rfl
  have hcode (s : Statement) : (s.renumber f).hasCode = s.hasCode := rfl
  induction ss generalizing block size with
  | nil =>
    by_cases hblock : block = [] <;> simp [blocksFrom, hblock]
  | cons s rest ih =>
    have hempty := ih [] 0
    have halone := ih [s] s.size
    have hlonger := ih (block ++ [s]) (size + s.size)
    simp only [List.map_nil, List.map_cons, List.map_append] at hempty halone hlonger
    simp only [List.map_cons, blocksFrom, hsize, hcode, hempty, halone, hlonger, List.map_eq_nil_iff,
      ne_eq]
    split
    · split <;> rfl
    · split <;> rfl

theorem Statement.objectCode_renumber {symbols symbols' : SymbolTable} (h : symbols.Renumbered f symbols')
    (s : Statement) : Renumbering f Eq (s.objectCode symbols) ((s.renumber f).objectCode symbols') := by
  obtain ⟨mnemonic, operation, location, line, label, operand, payload⟩ := s
  simp only [objectCode, renumber, h.address?]
  split
  · exact .ok rfl
  · split
    · exact .error rfl
    · exact .ite (fun _ => .error rfl) (fun _ => .ok rfl)
  · exact .ok rfl
  · exact .ok rfl
  · exact .error rfl

theorem Statement.entry_renumber {symbols symbols' : SymbolTable} (h : symbols.Renumbered f symbols')
    (s : Statement) : Renumbering f Eq (s.entry symbols) ((s.renumber f).entry symbols') := by
  obtain ⟨mnemonic, operation, location, line, label, operand, payload⟩ := s
  have haddress : symbols'.address? = symbols.address? := funext h.address?
  unfold entry
  rw [haddress]
  cases payload with
  | finish symbol address =>
    dsimp only [renumber]
    cases symbol.bind symbols.address? with
    | some value => exact .ok rfl
    | none =>
      cases address with
      | some value => exact .ok rfl
      | none =>
        cases symbol with
        | some name => exact .error rfl
        | none => exact .ok rfl
  | instruction | word | bytes | start | reserve => exact .ok rfl

theorem Layout.Renumbered.records {l m : Layout} (h : l.Renumbered f m) : Renumbering f Eq l.records m.records := by
  unfold Layout.records
  rw [h.statements]
  refine (Outline.ofStatements_renumber l.statements.toList).bind ?_
  intro o _ ho
  subst ho
  have hblocks : blocks (o.renumber f).body = (blocks o.body).map (List.map (Statement.renumber f)) :=
    blocksFrom_renumber [] 0 o.body
  have hlength : m.length = l.length := by
    rw [Layout.length, h.counter, h.start, Layout.length]
  rw [hblocks]
  refine (Related.mapM _ (fun b => Related.mapM _ (Statement.objectCode_renumber h.symbols) b) (blocks o.body)).bind ?_
  intro codes _ hcodes
  subst hcodes
  refine (o.last.entry_renumber h.symbols).bind ?_
  intro entry _ hentry
  subst hentry
  have htext : (fun b codes => textRecord (b.map (Statement.renumber f)) codes) = textRecord := by
    funext b codes
    cases b <;> rfl
  rw [hlength, List.zipWith_map_left, htext]
  exact .ok rfl

/-- Line numbers matter in errors only. -/
theorem assemble_renumber {text text' : String}
    (h : sourceLines text' = (sourceLines text).map (SourceLine.renumber f)) :
    assemble text' = (assemble text).mapError (SourceError.renumber f) := by
  refine Related.eq_mapError ?_
  unfold assemble
  rw [h]
  exact (Layout.ofLines_renumber (sourceLines text)).bind fun h => h.records

end Tribyte
