import Javelet.Cursor
import Javelet.Declaration
import Mathlib

/-! Programs by their outlines. An outline is what can be said of every part of a program alike:
its span, what is on record about what is written there, and the rows of smaller parts in it. -/
namespace Javelet

structure Outline where
  span : Span
  /-- The text of a value. -/
  text? : Option String := none
  /-- The names that the part itself gives or uses. -/
  names : List String := []
  /-- Places on record besides the span. -/
  places : List Position := []
  rows : List (List Outline) := []

/-- What holds of an outline if it holds of all parts of its rows, holds of every outline. -/
theorem Outline.induct {P : Outline → Prop}
    (step : ∀ o : Outline, (∀ row ∈ o.rows, ∀ part ∈ row, P part) → P o) (o : Outline) : P o :=
  @Outline.rec P (fun rows => ∀ row ∈ rows, ∀ part ∈ row, P part) (fun row => ∀ part ∈ row, P part)
    (fun _ _ _ _ _ parts => step _ parts) (List.forall_mem_nil _)
    (fun _ _ first rest => List.forall_mem_cons.mpr ⟨first, rest⟩) (List.forall_mem_nil _)
    (fun _ _ first rest => List.forall_mem_cons.mpr ⟨first, rest⟩) o

/-- All the names in a part and its smaller parts satisfy a condition. -/
inductive Outline.Spells (P : String → Prop) : Outline → Prop
  | intro {o : Outline} : (∀ name ∈ o.names, P name) →
      (∀ row ∈ o.rows, ∀ part ∈ row, Spells P part) → Spells P o

theorem Outline.Spells.names {P : String → Prop} {o : Outline} (h : o.Spells P) :
    ∀ name ∈ o.names, P name := by
  cases h with
  | intro names parts => exact names

theorem Outline.Spells.parts {P : String → Prop} {o : Outline} (h : o.Spells P) :
    ∀ row ∈ o.rows, ∀ part ∈ row, part.Spells P := by
  cases h with
  | intro names parts => exact parts

def Expression.names : Expression → List String
  | name text _ => [text]
  | _ => []

def Expression.outline (e : Expression) : Outline :=
  { span := e.span, text? := some e.text, names := e.names }

def Declarator.outline (d : Declarator) : Outline :=
  { span := d.span, names := [d.name], rows := [d.value.toList.map Expression.outline] }

def LocalDeclaration.outline (d : LocalDeclaration) : Outline :=
  { span := d.span, places := [d.type.position], rows := [d.declarators.map Declarator.outline] }

mutual

def Statement.outline : Statement → Outline
  | .block body span => { span, rows := [Statement.outlines body] }
  | .declaration d => d.outline

def Statement.outlines : List Statement → List Outline
  | [] => []
  | first :: rest => first.outline :: Statement.outlines rest

end

theorem Statement.outlines_eq_map (body : List Statement) :
    outlines body = body.map outline := by
  induction body with
  | nil => rfl
  | cons first rest ih => rw [outlines, ih, List.map_cons]

def Block.outline (b : Block) : Outline :=
  { span := b.span, rows := [b.body.map Statement.outline] }

def Parameter.outline (p : Parameter) : Outline :=
  { span := p.span, names := [p.name], places := [p.type.position] }

/-- The parameters stand before the body, but the two rows are told apart. -/
def Method.outline (m : Method) : Outline :=
  { span := m.span, names := [m.name], places := [m.type.position],
    rows := [m.parameters.map Parameter.outline, m.body.toList.map Block.outline] }

def Field.outline (f : Field) : Outline :=
  { span := f.span, places := [f.type.position], rows := [f.declarators.map Declarator.outline] }

mutual

def Class.outline : Class → Outline
  | ⟨name, _, fields, methods, nested, span⟩ =>
    { span, names := [name],
      rows := [fields.map Field.outline, methods.map Method.outline, Class.outlines nested] }

def Class.outlines : List Class → List Outline
  | [] => []
  | first :: rest => first.outline :: Class.outlines rest

end

theorem Class.outlines_eq_map (classes : List Class) : outlines classes = classes.map outline := by
  induction classes with
  | nil => rfl
  | cons first rest ih => rw [outlines, ih, List.map_cons]

theorem Class.outline_eq (c : Class) : c.outline = { span := c.span, names := [c.name], rows :=
    [c.fields.map Field.outline, c.methods.map Method.outline, c.nested.map outline] } := by
  obtain ⟨name, modifiers, fields, methods, nested, span⟩ := c
  rw [outline, outlines_eq_map]

def Import.outline (i : Import) : Outline := { span := i.span }

def CompilationUnit.outline (u : CompilationUnit) : Outline :=
  { span := u.span, rows := [u.imports.map Import.outline, u.classes.map Class.outline] }

namespace Cursor

/-- From a token to the next. -/
def Step (c c' : Cursor) : Prop := c.ahead ≠ [] ∧ c' = c.advance

/-- From a place to the same or a later one. -/
def Leads : Cursor → Cursor → Prop := Relation.ReflTransGen Step

/-- From a place over at least one token. -/
def Passes : Cursor → Cursor → Prop := Relation.TransGen Step

variable {a b c : Cursor}

theorem Leads.refl (c : Cursor) : c.Leads c := Relation.ReflTransGen.refl

theorem Leads.trans (first : a.Leads b) (second : b.Leads c) : a.Leads c :=
  Relation.ReflTransGen.trans first second

theorem Passes.leads (h : a.Passes b) : a.Leads b := Relation.TransGen.to_reflTransGen h

theorem Passes.trans_leads (first : a.Passes b) (second : b.Leads c) : a.Passes c :=
  Relation.TransGen.trans_left first second

theorem Leads.trans_passes (first : a.Leads b) (second : b.Passes c) : a.Passes c :=
  Relation.TransGen.trans_right first second

/-- What is ahead at a later place was ahead before. -/
theorem Leads.ahead_subset (leads : a.Leads b) : ∀ t ∈ b.ahead, t ∈ a.ahead := by
  induction leads with
  | refl => exact fun t member => member
  | tail _ step ih =>
    obtain ⟨_, rfl⟩ := step
    intro t member
    rw [advance_ahead] at member
    exact ih t (List.mem_of_mem_tail member)

/-- A token that is not the ending can be passed. -/
theorem passes_advance (inside : c.kind ≠ .eof) : c.Passes c.advance :=
  .single ⟨c.ahead_ne_nil inside, rfl⟩

end Cursor

/-- Items that stand one behind the other between two places of a stream, with anything before,
between and behind them. -/
inductive Row {α : Type} (R : α → Cursor → Cursor → Prop) : List α → Cursor → Cursor → Prop
  | nil {c c' : Cursor} : c.Leads c' → Row R [] c c'
  | cons {c a b c' : Cursor} {x : α} {xs : List α} :
      c.Leads a → R x a b → Row R xs b c' → Row R (x :: xs) c c'

namespace Row

variable {α β : Type} {R : α → Cursor → Cursor → Prop} {S : β → Cursor → Cursor → Prop}
  {a b c : Cursor} {x : α} {xs ys : List α}

theorem one (h : R x a b) : Row R [x] a b := .cons (.refl a) h (.nil (.refl b))

/-- What stands in front of a row goes with it. -/
theorem after (first : a.Leads b) (h : Row R xs b c) : Row R xs a c := by
  cases h with
  | nil leads => exact .nil (first.trans leads)
  | cons leads here rest => exact .cons (first.trans leads) here rest

theorem append (first : Row R xs a b) (second : Row R ys b c) : Row R (xs ++ ys) a c := by
  induction first with
  | nil leads => exact second.after leads
  | cons leads here _ ih => exact .cons leads here (ih second)

theorem before (h : Row R xs a b) (last : b.Leads c) : Row R xs a c := by
  have whole := h.append (.nil last)
  rwa [List.append_nil] at whole

theorem leads (h : Row R xs a b) (passes : ∀ x ∈ xs, ∀ a b, R x a b → a.Leads b) : a.Leads b := by
  induction h with
  | nil leads => exact leads
  | cons leads here _ ih =>
    have further := passes _ List.mem_cons_self _ _ here
    have rest := ih fun x member => passes x (List.mem_cons_of_mem _ member)
    exact (leads.trans further).trans rest

theorem imp {S : α → Cursor → Cursor → Prop} (h : Row R xs a b)
    (each : ∀ x a b, R x a b → S x a b) : Row S xs a b := by
  induction h with
  | nil leads => exact .nil leads
  | cons leads here _ ih => exact .cons leads (each _ _ _ here) ih

/-- Items that are rows themselves make one long row. -/
theorem flatMap {f : α → List β} (h : Row R xs a b)
    (each : ∀ x ∈ xs, ∀ a b, R x a b → Row S (f x) a b) : Row S (xs.flatMap f) a b := by
  induction h with
  | nil leads => exact .nil leads
  | cons leads here _ ih =>
    have first := each _ List.mem_cons_self _ _ here
    have rest := ih fun x member => each x (List.mem_cons_of_mem _ member)
    exact (first.append rest).after leads

theorem map {f : α → β} (h : Row R xs a b) (each : ∀ x ∈ xs, ∀ a b, R x a b → S (f x) a b) :
    Row S (xs.map f) a b := by
  rw [List.map_eq_flatMap]
  exact h.flatMap fun x member a b here => .one (each x member a b here)

theorem filterMap {f : α → Option β} (h : Row R xs a b)
    (each : ∀ x ∈ xs, ∀ a b, R x a b → Row S (f x).toList a b) : Row S (xs.filterMap f) a b := by
  rw [List.filterMap_eq_flatMap_toList]
  exact h.flatMap each

end Row

/-- What is written at a token: for a name or number its value, for a reserved word the word. -/
def Token.Shows (t : Token) (text : String) : Prop :=
  (t.kind = .identifier ∨ t.kind = .number) ∧ t.value = text ∨ (text, t.kind) ∈ Kind.reserved

namespace Outline

/-- A part by itself goes from one place of a stream to another: its span does, a value is one
token, and what is on record about it is there in between. -/
structure Fits (o : Outline) (c c' : Cursor) : Prop where
  passes : c.Passes c'
  span_eq : o.span = ⟨c.position, c'.previousEnd⟩
  texts : ∀ text ∈ o.text?, c' = c.advance ∧ c.current.Shows text
  names : ∀ name ∈ o.names, ∃ a, c.Leads a ∧ a.kind = .identifier ∧ a.current.value = name
  places : ∀ p ∈ o.places, ∃ a, c.Leads a ∧ a.Passes c' ∧ a.position = p

/-- A part goes from one place of a stream to another, and so do its smaller parts in between, in
the order of their rows. -/
inductive Laid : Outline → Cursor → Cursor → Prop
  | intro {o : Outline} {c c' : Cursor} :
      o.Fits c c' → (∀ row ∈ o.rows, Row Laid row c c') → Laid o c c'

end Outline

namespace Outline.Laid

variable {o : Outline} {c c' : Cursor}

theorem fits (h : o.Laid c c') : o.Fits c c' := by
  cases h with
  | intro fits rows => exact fits

theorem rows (h : o.Laid c c') : ∀ row ∈ o.rows, Row Laid row c c' := by
  cases h with
  | intro fits rows => exact rows

theorem leads (h : o.Laid c c') : c.Leads c' := h.fits.passes.leads

/-- A part that is no value has no text to show. -/
theorem of_part (plain : o.text? = none) (passes : c.Passes c')
    (span_eq : o.span = ⟨c.position, c'.previousEnd⟩)
    (names : ∀ name ∈ o.names, ∃ a, c.Leads a ∧ a.kind = .identifier ∧ a.current.value = name)
    (places : ∀ p ∈ o.places, ∃ a, c.Leads a ∧ a.Passes c' ∧ a.position = p)
    (rows : ∀ row ∈ o.rows, Row Laid row c c') : o.Laid c c' := by
  refine .intro ⟨passes, span_eq, ?_, names, places⟩ rows
  rw [plain]
  rintro _ ⟨⟩

end Outline.Laid

namespace Row

variable {α : Type} {f : α → Outline} {xs : List α} {row : List Outline} {c c' : Cursor}

/-- Rows of syntax are rows of outlines. -/
theorem outlines (h : Row (fun x => (f x).Laid) xs c c') : Row Outline.Laid (xs.map f) c c' :=
  h.map fun _ _ _ _ laid => laid

theorem leads_laid (h : Row (fun x => (f x).Laid) xs c c') : c.Leads c' :=
  h.leads fun _ _ _ _ laid => laid.leads

/-- Each item of a row stands somewhere between the two places. -/
theorem exists_of_mem (h : Row Outline.Laid row c c') :
    ∀ part ∈ row, ∃ a b, c.Leads a ∧ part.Laid a b ∧ b.Leads c' := by
  induction h with
  | nil leads => exact List.forall_mem_nil _
  | cons leads here rest ih =>
    rw [List.forall_mem_cons]
    constructor
    · exact ⟨_, _, leads, here, rest.leads fun _ _ _ _ laid => laid.leads⟩
    · intro part member
      obtain ⟨a, b, before, laid, behind⟩ := ih part member
      exact ⟨a, b, leads.trans (here.leads.trans before), laid, behind⟩

end Row
end Javelet
