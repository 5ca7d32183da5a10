import Javelet.Declaration.Parser
import Javelet.Proofs.Written

namespace Javelet

def TypeExpr.erase (t : TypeExpr) : TypeExpr := ⟨t.shape, .unknown⟩

def Expression.erase : Expression → Expression
  | .number value text _ => .number value text .unknown
  | .boolean value _ => .boolean value .unknown
  | .null _ => .null .unknown
  | .name text _ => .name text .unknown

def Declarator.erase (d : Declarator) : Declarator :=
  ⟨d.name, d.value.map Expression.erase, .unknown⟩

def LocalDeclaration.erase (d : LocalDeclaration) : LocalDeclaration :=
  ⟨d.type.erase, d.declarators.map Declarator.erase, .unknown⟩

mutual

def Statement.erase : Statement → Statement
  | .block body _ => .block (Statement.eraseIn body) .unknown
  | .declaration d => .declaration d.erase

def Statement.eraseIn : List Statement → List Statement
  | [] => []
  | first :: rest => first.erase :: Statement.eraseIn rest

end

theorem Statement.eraseIn_eq_map (body : List Statement) : eraseIn body = body.map erase := by
  induction body with
  | nil => rfl
  | cons first rest ih => rw [eraseIn, ih, List.map_cons]

def Block.erase (b : Block) : Block := ⟨b.body.map Statement.erase, .unknown⟩

def Parameter.erase (p : Parameter) : Parameter := ⟨p.name, p.type.erase, .unknown⟩

def Field.erase (f : Field) : Field :=
  ⟨f.modifiers, f.type.erase, f.declarators.map Declarator.erase, .unknown⟩

def Method.erase (m : Method) : Method :=
  ⟨m.modifiers, m.type.erase, m.name, m.parameters.map Parameter.erase, m.body.map Block.erase,
    .unknown⟩

mutual

def Class.erase : Class → Class
  | ⟨name, modifiers, fields, methods, nested, _⟩ =>
    ⟨name, modifiers, fields.map Field.erase, methods.map Method.erase, Class.eraseAll nested,
      .unknown⟩

def Class.eraseAll : List Class → List Class
  | [] => []
  | first :: rest => first.erase :: Class.eraseAll rest

end

theorem Class.eraseAll_eq_map (classes : List Class) : eraseAll classes = classes.map erase := by
  induction classes with
  | nil => rfl
  | cons first rest ih => rw [eraseAll, ih, List.map_cons]

def Import.erase (i : Import) : Import := ⟨i.name, .unknown⟩

def CompilationUnit.erase (u : CompilationUnit) : CompilationUnit :=
  ⟨u.package, u.imports.map Import.erase, u.classes.map Class.erase, .unknown⟩

def Member.erase : Member → Member
  | .empty => .empty
  | .field f => .field f.erase
  | .method m => .method m.erase
  | .nested c => .nested c.erase

namespace Member

theorem field?_erase (m : Member) : m.erase.field? = m.field?.map Field.erase := by
  cases m <;> rfl

theorem method?_erase (m : Member) : m.erase.method? = m.method?.map Method.erase := by
  cases m <;> rfl

theorem nested?_erase (m : Member) : m.erase.nested? = m.nested?.map Class.erase := by
  cases m <;> rfl

/-- A change of members goes through any way of sorting them out. -/
theorem filterMap_map {α : Type} {change : Member → Member} {sort : Member → Option α}
    {changed : α → α} (commutes : ∀ m : Member, sort (change m) = (sort m).map changed)
    (members : List Member) :
    (members.map change).filterMap sort = (members.filterMap sort).map changed := by
  rw [List.filterMap_map, List.map_filterMap]
  congr 1
  funext m
  exact commutes m

end Member

end Javelet
