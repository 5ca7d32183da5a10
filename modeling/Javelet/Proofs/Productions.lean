import Javelet.Token.Kind

/-! The syntax of programs, as productions over kinds of token. What a token says has no part in it,
and neither has any order in which alternatives are tried. -/
namespace Javelet

inductive Nonterminal where
  | unit | qualified | classDeclaration | member | parameter | type
  | declarators | declarator | expression | block | statement
deriving DecidableEq

/-- The right side of a production. -/
inductive Phrase where
  | empty
  | token (fits : Kind → Bool)
  | symbol (n : Nonterminal)
  | seq (first second : Phrase)
  | either (one other : Phrase)
  | many (repeated : Phrase)

namespace Phrase

instance : Append Phrase := ⟨seq⟩

instance : OrOp Phrase := ⟨either⟩

def punct (p : Punct) : Phrase := token fun kind => decide (kind = .punct p)

def word (w : Keyword) : Phrase := token fun kind => decide (kind = .keyword w)

def name : Phrase := token fun kind => decide (kind = .identifier)

def number : Phrase := token fun kind => decide (kind = .number)

def modifier : Phrase := token Kind.isModifier

def primitive : Phrase := token Kind.isPrimitive

def optional (p : Phrase) : Phrase := p ||| empty

/-- One or more with commas between them. -/
def commaSeparated (p : Phrase) : Phrase := p ++ many (punct .comma ++ p)

end Phrase

namespace Nonterminal
open Phrase

/-- `import a.b;` or `import a.b.*;` -/
def importClause : Phrase :=
  word .importWord ++ symbol qualified ++ optional (punct .dot ++ punct .star) ++ punct .semicolon

def packageClause : Phrase := word .packageWord ++ symbol qualified ++ punct .semicolon

/-- A list of variables behind its modifiers. -/
def fieldMember : Phrase :=
  many modifier ++ symbol type ++ symbol declarators ++ punct .semicolon

/-- The parameters may end in a comma. -/
def parameterList : Phrase :=
  optional (commaSeparated (symbol parameter) ++ optional (punct .comma))

def methodMember : Phrase :=
  many modifier ++ symbol type ++ name ++ punct .openParen ++ parameterList ++ punct .closeParen ++
    (punct .semicolon ||| symbol block)

def production : Nonterminal → Phrase
  | unit => optional packageClause ++ many importClause ++
      many (punct .semicolon ||| symbol classDeclaration)
  | qualified => name ++ many (punct .dot ++ name)
  | classDeclaration => many modifier ++ word .classWord ++ name ++ punct .openCurly ++
      many (symbol member) ++ punct .closeCurly
  | member => punct .semicolon ||| symbol classDeclaration ||| fieldMember ||| methodMember
  | parameter => symbol type ++ name
  | type => (primitive ||| symbol qualified) ++ many (punct .openBracket ++ punct .closeBracket)
  | declarators => commaSeparated (symbol declarator)
  | declarator => name ++ optional (punct .assign ++ symbol expression)
  | expression => number ||| name ||| word .trueWord ||| word .falseWord ||| word .nullWord
  | block => punct .openCurly ++ many (symbol statement) ++ punct .closeCurly
  | statement => symbol block ||| symbol type ++ symbol declarators ++ punct .semicolon

end Nonterminal

/-- The lists of kinds that a phrase stands for. -/
inductive Derives : Phrase → List Kind → Prop
  | empty : Derives .empty []
  | token {fits : Kind → Bool} {kind : Kind} : fits kind = true → Derives (.token fits) [kind]
  | symbol {n : Nonterminal} {ks : List Kind} : Derives n.production ks → Derives (.symbol n) ks
  | seq {p q : Phrase} {ks ls : List Kind} :
      Derives p ks → Derives q ls → Derives (.seq p q) (ks ++ ls)
  | one {p q : Phrase} {ks : List Kind} : Derives p ks → Derives (.either p q) ks
  | other {p q : Phrase} {ks : List Kind} : Derives q ks → Derives (.either p q) ks
  | stop {p : Phrase} : Derives (.many p) []
  | more {p : Phrase} {ks ls : List Kind} :
      Derives p ks → Derives (.many p) ls → Derives (.many p) (ks ++ ls)

namespace Derives

theorem token_iff (fits : Kind → Bool) (ks : List Kind) :
    Derives (.token fits) ks ↔ ∃ kind, fits kind = true ∧ ks = [kind] := by
  constructor
  · rintro ⟨⟩
    exact ⟨_, ‹_›, rfl⟩
  · rintro ⟨kind, fit, rfl⟩
    exact .token fit

theorem symbol_iff (n : Nonterminal) (ks : List Kind) :
    Derives (.symbol n) ks ↔ Derives n.production ks := by
  constructor
  · rintro ⟨⟩
    assumption
  · exact .symbol

theorem seq_iff (p q : Phrase) (ks : List Kind) :
    Derives (p ++ q) ks ↔ ∃ first second, ks = first ++ second ∧ Derives p first ∧
      Derives q second := by
  constructor
  · intro h
    cases h with
    | seq left right => exact ⟨_, _, rfl, left, right⟩
  · rintro ⟨_, _, rfl, left, right⟩
    exact .seq left right

theorem either_iff (p q : Phrase) (ks : List Kind) :
    Derives (p ||| q) ks ↔ Derives p ks ∨ Derives q ks := by
  constructor
  · intro h
    cases h with
    | one left => exact .inl left
    | other right => exact .inr right
  · rintro (left | right)
    · exact .one left
    · exact .other right

theorem optional_iff (p : Phrase) (ks : List Kind) :
    Derives p.optional ks ↔ Derives p ks ∨ ks = [] := by
  rw [Phrase.optional, either_iff]
  refine or_congr Iff.rfl ?_
  constructor
  · rintro ⟨⟩
    rfl
  · rintro rfl
    exact .empty

/-- A repetition is a row of parts. -/
theorem many_iff (p : Phrase) (ks : List Kind) :
    Derives (.many p) ks ↔ ∃ parts : List (List Kind), ks = parts.flatten ∧
      ∀ part ∈ parts, Derives p part := by
  constructor
  · intro h
    generalize whole : Phrase.many p = q at h
    induction h with
    | stop => exact ⟨[], rfl, List.forall_mem_nil _⟩
    | @more _ first _ head _ _ ih =>
      cases whole
      obtain ⟨parts, rfl, each⟩ := ih rfl
      exact ⟨first :: parts, rfl, List.forall_mem_cons.mpr ⟨head, each⟩⟩
    | empty | token | symbol | seq | one | other => cases whole
  · rintro ⟨parts, rfl, each⟩
    induction parts with
    | nil => exact .stop
    | cons part rest ih =>
      obtain ⟨head, tail⟩ := List.forall_mem_cons.mp each
      exact .more head (ih tail)

end Derives

namespace Phrase

/-- Whether all tokens of a phrase are of the given kinds, with `below` as answer for the phrases
that it names. -/
def Within (kinds : Kind → Prop) (below : Nonterminal → Prop) : Phrase → Prop
  | empty => True
  | token fits => ∀ kind, fits kind = true → kinds kind
  | symbol n => below n
  | seq p q | either p q => p.Within kinds below ∧ q.Within kinds below
  | many p => p.Within kinds below

section Within

variable {kinds : Kind → Prop} {below : Nonterminal → Prop} (p q : Phrase)

@[simp] theorem within_append :
    (p ++ q).Within kinds below ↔ p.Within kinds below ∧ q.Within kinds below := Iff.rfl

@[simp] theorem within_or :
    (p ||| q).Within kinds below ↔ p.Within kinds below ∧ q.Within kinds below := Iff.rfl

@[simp] theorem within_many : (many p).Within kinds below ↔ p.Within kinds below := Iff.rfl

@[simp] theorem within_optional : p.optional.Within kinds below ↔ p.Within kinds below :=
  and_iff_left trivial

@[simp] theorem within_symbol (n : Nonterminal) : (symbol n).Within kinds below ↔ below n := Iff.rfl

@[simp] theorem within_punct (p : Punct) : (punct p).Within kinds below ↔ kinds (.punct p) := by
  simp [punct, Within]

@[simp] theorem within_word (w : Keyword) : (word w).Within kinds below ↔ kinds (.keyword w) := by
  simp [word, Within]

@[simp] theorem within_name : name.Within kinds below ↔ kinds .identifier := by
  simp [name, Within]

@[simp] theorem within_number : number.Within kinds below ↔ kinds .number := by
  simp [number, Within]

@[simp] theorem within_modifier :
    modifier.Within kinds below ↔ ∀ m, kinds (.modifier m) := by
  constructor
  · intro h m
    exact h _ rfl
  · intro h kind fit
    cases kind <;> cases fit
    exact h _

@[simp] theorem within_primitive :
    primitive.Within kinds below ↔ ∀ p, kinds (.primitive p) := by
  constructor
  · intro h p
    exact h _ rfl
  · intro h kind fit
    cases kind <;> cases fit
    exact h _

end Within

/-- Whether a phrase stands for no empty list. -/
def solid : Phrase → Bool
  | empty => false
  | token _ => true
  | symbol n => decide (n ≠ .unit)
  | seq p q => p.solid || q.solid
  | either p q => p.solid && q.solid
  | many _ => false

theorem solid_production {n : Nonterminal} (other : n ≠ .unit) : n.production.solid = true := by
  cases n with
  | unit => exact absurd rfl other
  | _ => rfl

end Phrase

/-- What holds of the tokens of each production holds of all that is derived. -/
theorem Derives.within {kinds : Kind → Prop} {below : Nonterminal → Prop}
    (productions : ∀ n, below n → n.production.Within kinds below) {p : Phrase} {ks : List Kind}
    (h : Derives p ks) (own : p.Within kinds below) : ∀ kind ∈ ks, kinds kind := by
  induction h with
  | empty => exact List.forall_mem_nil _
  | token fit => exact List.forall_mem_singleton.mpr (own _ fit)
  | symbol _ ih => exact ih (productions _ own)
  | seq _ _ first second =>
    exact List.forall_mem_append.mpr ⟨first own.1, second own.2⟩
  | one _ ih => exact ih own.1
  | other _ ih => exact ih own.2
  | stop => exact List.forall_mem_nil _
  | more _ _ first rest => exact List.forall_mem_append.mpr ⟨first own, rest own⟩

theorem Derives.ne_nil {p : Phrase} {ks : List Kind} (h : Derives p ks) (solid : p.solid = true) :
    ks ≠ [] := by
  induction h with
  | empty => cases solid
  | token => exact List.cons_ne_nil _ _
  | symbol _ ih => exact ih (Phrase.solid_production (of_decide_eq_true solid))
  | seq _ _ first second =>
    intro none
    obtain ⟨noFirst, noSecond⟩ := List.append_eq_nil_iff.mp none
    obtain one | other := (Bool.or_eq_true ..).mp solid
    · exact first one noFirst
    · exact second other noSecond
  | one _ ih => exact ih ((Bool.and_eq_true ..).mp solid).1
  | other _ ih => exact ih ((Bool.and_eq_true ..).mp solid).2
  | stop => cases solid
  | more => cases solid

/-- The kinds that occur in programs, apart from the star that ends an import. No operator, string
or statement word is among them. -/
def Kind.isPlain : Kind → Bool
  | .identifier | .number | .modifier _ | .primitive _ => true
  | .punct p => decide (p ∈ [.openBracket, .closeBracket, .openCurly, .closeCurly, .openParen,
      .closeParen, .assign, .dot, .semicolon, .comma])
  | .keyword w => decide (w ∈ [.classWord, .importWord, .packageWord, .trueWord, .falseWord,
      .nullWord])
  | .eof | .string => false

namespace Phrase

/-- Only the unit itself has room for a star. -/
theorem production_plain {n : Nonterminal} (other : n ≠ .unit) :
    n.production.Within (fun kind => kind.isPlain = true) (· ≠ .unit) := by
  cases n with
  | unit => exact absurd rfl other
  | _ =>
    simp [Nonterminal.production, Nonterminal.fieldMember, Nonterminal.methodMember,
      Nonterminal.parameterList, commaSeparated, Kind.isPlain]

theorem production_within (n : Nonterminal) :
    n.production.Within (fun kind => kind.isPlain = true ∨ kind = .punct .star) fun _ => True := by
  cases n <;>
    simp [Nonterminal.production, Nonterminal.packageClause, Nonterminal.importClause,
      Nonterminal.fieldMember, Nonterminal.methodMember, Nonterminal.parameterList, commaSeparated,
      Kind.isPlain]

end Phrase

/-- What is derived below the unit is plain. -/
theorem Derives.plain {p : Phrase} {ks : List Kind} (h : Derives p ks)
    (own : p.Within (fun kind => kind.isPlain = true) (· ≠ .unit)) :
    ∀ kind ∈ ks, kind.isPlain = true :=
  h.within (fun _ => Phrase.production_plain) own

theorem Derives.plain_or_star {n : Nonterminal} {ks : List Kind} (h : Derives (.symbol n) ks) :
    ∀ kind ∈ ks, kind.isPlain = true ∨ kind = .punct .star :=
  h.within (fun n _ => Phrase.production_within n) trivial

/-- Every star ends an import: the path of one is in front of it, and a semicolon behind it. -/
def StarsEndImports (ks : List Kind) : Prop :=
  ∀ front back, ks = front ++ .punct .star :: back →
    ∃ earlier path, front = earlier ++ .keyword .importWord :: path ++ [.punct .dot] ∧
      Derives (.symbol .qualified) path ∧ back.head? = some (.punct .semicolon)

namespace StarsEndImports

theorem not_mem_of_plain {ks : List Kind} (plain : ∀ kind ∈ ks, kind.isPlain = true) :
    .punct .star ∉ ks := by
  intro member
  cases plain _ member

theorem of_plain {ks : List Kind} (plain : ∀ kind ∈ ks, kind.isPlain = true) :
    StarsEndImports ks := by
  rintro front back rfl
  exact absurd (List.mem_append_right _ (List.mem_cons_self ..)) (not_mem_of_plain plain)

theorem append {ks ls : List Kind} (first : StarsEndImports ks) (second : StarsEndImports ls) :
    StarsEndImports (ks ++ ls) := by
  intro front back split
  obtain ⟨more, rfl, there⟩ | ⟨more, here, there⟩ := List.append_eq_append_iff.mp split
  · obtain ⟨earlier, path, rfl, derived, followed⟩ := second _ _ there
    exact ⟨ks ++ earlier, path, by simp, derived, followed⟩
  · cases more with
    | nil =>
      obtain ⟨earlier, path, none, _⟩ := second [] back there.symm
      simp at none
    | cons star more =>
      rw [List.cons_append, List.cons_eq_cons] at there
      obtain ⟨rfl, rfl⟩ := there
      obtain ⟨earlier, path, whole, derived, followed⟩ := first _ _ here
      refine ⟨earlier, path, whole, derived, ?_⟩
      rw [List.head?_append, followed]
      rfl

theorem flatten {parts : List (List Kind)} (each : ∀ part ∈ parts, StarsEndImports part) :
    StarsEndImports parts.flatten := by
  induction parts with
  | nil => exact of_plain (List.forall_mem_nil _)
  | cons part rest ih =>
    obtain ⟨own, others⟩ := List.forall_mem_cons.mp each
    exact own.append (ih others)

/-- The one star of an import is where it should be. -/
theorem of_path {path : List Kind} (h : Derives (.symbol .qualified) path) :
    StarsEndImports (.keyword .importWord :: path ++ [.punct .dot] ++
      [.punct .star, .punct .semicolon]) := by
  have plain : ∀ kind ∈ .keyword .importWord :: path ++ [Kind.punct .dot], kind.isPlain = true := by
    simp only [List.forall_mem_append, List.forall_mem_cons]
    exact ⟨⟨rfl, h.plain nofun⟩, rfl, List.forall_mem_nil _⟩
  have absent := not_mem_of_plain plain
  intro front back split
  obtain ⟨more, rfl, there⟩ | ⟨more, here, there⟩ := List.append_eq_append_iff.mp split
  · cases more with
    | nil =>
      cases there
      exact ⟨[], path, by simp, h, rfl⟩
    | cons star more =>
      obtain ⟨_, there⟩ := List.cons_eq_cons.mp there
      have second : Kind.punct .star ∈ [Kind.punct .semicolon] := by simp [there]
      simp at second
  · cases more with
    | nil =>
      cases there
      exact ⟨[], path, by simpa using here.symm, h, rfl⟩
    | cons star more =>
      obtain ⟨rfl, _⟩ := List.cons_eq_cons.mp there
      exact absurd (by rw [here]; simp) absent

theorem of_import {ks : List Kind} (h : Derives Nonterminal.importClause ks) :
    StarsEndImports ks := by
  obtain ⟨_, _, rfl, front, semicolon⟩ := (Derives.seq_iff ..).mp h
  obtain ⟨_, _, rfl, front, all⟩ := (Derives.seq_iff ..).mp front
  obtain ⟨_, path, rfl, word, derived⟩ := (Derives.seq_iff ..).mp front
  have punct {p : Punct} {ls : List Kind} (h : Derives (.punct p) ls) : ls = [.punct p] := by
    obtain ⟨kind, fit, rfl⟩ := (Derives.token_iff ..).mp h
    rw [of_decide_eq_true fit]
  obtain ⟨_, fit, rfl⟩ := (Derives.token_iff ..).mp word
  cases of_decide_eq_true fit
  cases punct semicolon
  obtain present | rfl := (Derives.optional_iff ..).mp all
  · obtain ⟨_, _, rfl, dot, star⟩ := (Derives.seq_iff ..).mp present
    cases punct dot
    cases punct star
    have closed := of_path derived
    simpa using closed
  · apply of_plain
    simp only [List.forall_mem_append, List.forall_mem_singleton]
    exact ⟨⟨⟨rfl, derived.plain nofun⟩, List.forall_mem_nil _⟩, rfl⟩

theorem of_unit {ks : List Kind} (h : Derives (.symbol .unit) ks) : StarsEndImports ks := by
  obtain ⟨_, _, rfl, front, declared⟩ := (Derives.seq_iff ..).mp ((Derives.symbol_iff ..).mp h)
  obtain ⟨_, _, rfl, packaged, imported⟩ := (Derives.seq_iff ..).mp front
  obtain ⟨imports, rfl, each⟩ := (Derives.many_iff ..).mp imported
  refine .append (.append (of_plain (packaged.plain ?_)) (.flatten fun part member => ?_))
    (of_plain (declared.plain ?_))
  · simp [Nonterminal.packageClause, Kind.isPlain]
  · exact of_import (each part member)
  · simp [Kind.isPlain]

end StarsEndImports
end Javelet
