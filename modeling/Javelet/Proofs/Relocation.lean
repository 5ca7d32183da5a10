import Javelet.Cursor
import Javelet.Proofs.Erasure
import Javelet.Proofs.Scoping

namespace Javelet

/-- Where the starts and the ends of things go. -/
structure Relocation where
  start : Position → Position
  stop : Position → Position

namespace Relocation

/-- Everything stays where it is. -/
def stay : Relocation := ⟨fun p => p, fun p => p⟩

/-- All places are forgotten. -/
def forget : Relocation := ⟨fun _ => .unknown, fun _ => .unknown⟩

end Relocation

def Span.move (r : Relocation) (s : Span) : Span := ⟨r.start s.start, r.stop s.stop⟩

/-- Errors point to where something starts. -/
def Error.move (r : Relocation) (e : Error) : Error := ⟨e.cause, r.start e.position⟩

def Token.move (r : Relocation) (t : Token) : Token := ⟨t.kind, t.value, t.span.move r⟩

def TypeExpr.move (r : Relocation) (t : TypeExpr) : TypeExpr := ⟨t.shape, r.start t.position⟩

def Expression.move (r : Relocation) : Expression → Expression
  | .number value text span => .number value text (span.move r)
  | .boolean value span => .boolean value (span.move r)
  | .null span => .null (span.move r)
  | .name text span => .name text (span.move r)

def Declarator.move (r : Relocation) (d : Declarator) : Declarator :=
  ⟨d.name, d.value.map (Expression.move r), d.span.move r⟩

def Parameter.move (r : Relocation) (p : Parameter) : Parameter :=
  ⟨p.name, p.type.move r, p.span.move r⟩

def Field.move (r : Relocation) (f : Field) : Field :=
  ⟨f.modifiers, f.type.move r, f.declarators.map (Declarator.move r), f.span.move r⟩

def Import.move (r : Relocation) (i : Import) : Import := ⟨i.name, i.span.move r⟩

section
variable (change : Declarator → Declarator) (r : Relocation)

/-- The variables of a local declaration are changed in whatever way, all else is only moved. -/
def LocalDeclaration.revise (d : LocalDeclaration) : LocalDeclaration :=
  ⟨d.type.move r, d.declarators.map change, d.span.move r⟩

mutual

def Statement.revise : Statement → Statement
  | .block body span => .block (Statement.reviseIn body) (span.move r)
  | .declaration d => .declaration (d.revise change r)

def Statement.reviseIn : List Statement → List Statement
  | [] => []
  | first :: rest => first.revise :: Statement.reviseIn rest

end

def Block.revise (b : Block) : Block := ⟨b.body.map (Statement.revise change r), b.span.move r⟩

def Method.revise (m : Method) : Method :=
  ⟨m.modifiers, m.type.move r, m.name, m.parameters.map (Parameter.move r),
    m.body.map (Block.revise change r), m.span.move r⟩

mutual

def Class.revise : Class → Class
  | ⟨name, modifiers, fields, methods, nested, span⟩ =>
    ⟨name, modifiers, fields.map (Field.move r), methods.map (Method.revise change r),
      Class.reviseAll nested, span.move r⟩

def Class.reviseAll : List Class → List Class
  | [] => []
  | first :: rest => first.revise :: Class.reviseAll rest

end

def CompilationUnit.revise (u : CompilationUnit) : CompilationUnit :=
  ⟨u.package, u.imports.map (Import.move r), u.classes.map (Class.revise change r), u.span.move r⟩

theorem Statement.reviseIn_eq_map (body : List Statement) :
    reviseIn change r body = body.map (revise change r) := by
  induction body with
  | nil => rfl
  | cons first rest ih => rw [reviseIn, ih, List.map_cons]

theorem Class.reviseAll_eq_map (classes : List Class) :
    reviseAll change r classes = classes.map (revise change r) := by
  induction classes with
  | nil => rfl
  | cons first rest ih => rw [reviseAll, ih, List.map_cons]

theorem Block.revise_body (b : Block) :
    (b.revise change r).body = Statement.reviseIn change r b.body := by
  rw [Statement.reviseIn_eq_map]
  rfl

theorem Class.revise_eq (c : Class) :
    c.revise change r = ⟨c.name, c.modifiers, c.fields.map (Field.move r),
      c.methods.map (Method.revise change r), c.nested.map (Class.revise change r),
      c.span.move r⟩ := by
  obtain ⟨name, modifiers, fields, methods, nested, span⟩ := c
  rw [revise, reviseAll_eq_map]

end

abbrev LocalDeclaration.move (r : Relocation) (d : LocalDeclaration) : LocalDeclaration :=
  d.revise (Declarator.move r) r

abbrev Statement.move (r : Relocation) (s : Statement) : Statement :=
  s.revise (Declarator.move r) r

abbrev Block.move (r : Relocation) (b : Block) : Block := b.revise (Declarator.move r) r

abbrev Method.move (r : Relocation) (m : Method) : Method := m.revise (Declarator.move r) r

abbrev Class.move (r : Relocation) (c : Class) : Class := c.revise (Declarator.move r) r

abbrev CompilationUnit.move (r : Relocation) (u : CompilationUnit) : CompilationUnit :=
  u.revise (Declarator.move r) r

theorem Expression.start_move (r : Relocation) (e : Expression) :
    (e.move r).span.start = r.start e.span.start := by
  cases e <;> rfl

theorem Statement.ofBlock_revise (change : Declarator → Declarator) (r : Relocation)
    (b : Block) : ofBlock (b.revise change r) = (ofBlock b).revise change r := by
  rw [ofBlock, Block.revise_body, ofBlock, revise]
  rfl

namespace Member

def move (r : Relocation) : Member → Member
  | .empty => .empty
  | .field f => .field (f.move r)
  | .method m => .method (m.move r)
  | .nested c => .nested (c.move r)

theorem field?_move (r : Relocation) (m : Member) :
    (m.move r).field? = m.field?.map (Field.move r) := by
  cases m <;> rfl

theorem method?_move (r : Relocation) (m : Member) :
    (m.move r).method? = m.method?.map (Method.move r) := by
  cases m <;> rfl

theorem nested?_move (r : Relocation) (m : Member) :
    (m.move r).nested? = m.nested?.map (Class.move r) := by
  cases m <;> rfl

end Member

theorem Expression.move_forget : Expression.move .forget = erase := by
  funext e
  cases e <;> rfl

theorem Declarator.move_forget : Declarator.move .forget = erase := by
  funext d
  rw [move, Expression.move_forget]
  rfl

theorem Field.move_forget : Field.move .forget = erase := by
  funext f
  rw [move, Declarator.move_forget]
  rfl

theorem Statement.revise_forget : Statement.revise Declarator.erase .forget = erase := by
  have both : (∀ s, Statement.revise Declarator.erase .forget s = s.erase) ∧
      ∀ body, reviseIn Declarator.erase .forget body = eraseIn body := by
    apply Statement.induct
    case block =>
      intro body span inside
      rw [revise, inside, erase]
      rfl
    case declaration =>
      intro d
      rw [revise, erase]
      rfl
    case nil => rfl
    case cons =>
      intro first rest head tail
      rw [reviseIn, eraseIn, head, tail]
  exact funext both.1

theorem Block.revise_forget : Block.revise Declarator.erase .forget = erase := by
  funext b
  rw [revise, Statement.revise_forget]
  rfl

theorem Method.revise_forget : Method.revise Declarator.erase .forget = erase := by
  funext m
  rw [revise, Block.revise_forget]
  rfl

mutual

theorem Class.revise_forget : ∀ c : Class, c.revise Declarator.erase .forget = c.erase
  | ⟨name, modifiers, fields, methods, nested, span⟩ => by
    rw [revise, erase, Field.move_forget, Method.revise_forget, Class.reviseAll_forget nested]
    rfl

theorem Class.reviseAll_forget :
    ∀ all : List Class, reviseAll Declarator.erase .forget all = eraseAll all
  | [] => rfl
  | first :: rest => by
    rw [reviseAll, eraseAll, Class.revise_forget first, Class.reviseAll_forget rest]

end

theorem CompilationUnit.move_forget (u : CompilationUnit) : u.move .forget = u.erase := by
  rw [move, Declarator.move_forget, revise,
    show Class.revise Declarator.erase .forget = Class.erase from funext Class.revise_forget]
  rfl

end Javelet
