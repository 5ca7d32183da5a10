import Javelet.Declaration
import Javelet.Signatures
import Javelet.TypeExpr.Resolve

namespace Javelet

namespace TypeShape

/-- The types a variable is declared with: `int`, `boolean` and a class by its simple name. -/
def tag? : TypeShape → Option Tag
  | .primitive .int => some .int
  | .primitive .boolean => some .boolean
  | .simple name => some (.reference name)
  | _ => none

/-- The types a method is declared with: also `void`. -/
def resultTag? : TypeShape → Option Tag
  | .primitive .void => some .void
  | shape => shape.tag?

/-- A declared type is one that values have. -/
theorem tag?_proper {shape : TypeShape} {tag : Tag} (h : shape.tag? = some tag) :
    tag ≠ .error ∧ tag ≠ .null ∧ tag ≠ .void := by
  unfold tag? at h
  split at h <;> cases h <;> exact ⟨nofun, nofun, nofun⟩

theorem resultTag?_proper {shape : TypeShape} {tag : Tag} (h : shape.resultTag? = some tag) :
    tag ≠ .error ∧ tag ≠ .null := by
  unfold resultTag? at h
  split at h
  · cases h; exact ⟨nofun, nofun⟩
  · obtain ⟨proper, nonnull, _⟩ := tag?_proper h
    exact ⟨proper, nonnull⟩

end TypeShape

/-- The causes of refusing a written type. -/
def Cause.OfType (cause : Cause) : Prop :=
  ∃ text, cause = .unsupportedPrimitive text ∨ cause = .qualifiedType text ∨
    cause = .unsupportedType text

namespace TypeExpr

theorem resolve_value_ok_iff (written : TypeExpr) (tag : Tag) :
    written.resolve false = .ok tag ↔ written.shape.tag? = some tag := by
  obtain ⟨shape, position⟩ := written
  cases shape with
  | primitive p => cases p <;> simp [resolve, TypeShape.tag?]
  | simple name => simp [resolve, TypeShape.tag?]
  | qualified parts => simp [resolve, TypeShape.tag?]
  | array element => simp [resolve, TypeShape.tag?]

theorem resolve_result_ok_iff (written : TypeExpr) (tag : Tag) :
    written.resolve true = .ok tag ↔ written.shape.resultTag? = some tag := by
  obtain ⟨shape, position⟩ := written
  cases shape with
  | primitive p => cases p <;> simp [resolve, TypeShape.resultTag?, TypeShape.tag?]
  | simple name => simp [resolve, TypeShape.resultTag?, TypeShape.tag?]
  | qualified parts => simp [resolve, TypeShape.resultTag?, TypeShape.tag?]
  | array element => simp [resolve, TypeShape.resultTag?, TypeShape.tag?]

theorem resolve_error {written : TypeExpr} {allowVoid : Bool} {e : Error}
    (h : written.resolve allowVoid = .error e) : e.cause.OfType := by
  unfold resolve at h
  split at h
  · cases h
  · cases h
  · split at h
    · cases h
    · cases h; exact ⟨_, .inl rfl⟩
  · cases h
  · cases h; exact ⟨_, .inr (.inl rfl)⟩
  · cases h; exact ⟨_, .inr (.inr rfl)⟩

end TypeExpr

namespace Declarator

theorem single_ok_iff (declarators : List Declarator) (span : Span) (declarator : Declarator) :
    single declarators span = .ok declarator ↔ declarators = [declarator] := by
  unfold single
  split
  · simp
  · rename_i several
    constructor
    · intro h; cases h
    · intro h; exact absurd h (several declarator)

theorem single_error {declarators : List Declarator} {span : Span} {e : Error}
    (h : single declarators span = .error e) : ∃ names, e.cause = .severalDeclarators names := by
  unfold single at h
  split at h
  · cases h
  · cases h; exact ⟨_, rfl⟩

/-- The variable that is declared, with its type: there is exactly one, and the language has the
type. -/
def typed? (declarators : List Declarator) (type : TypeExpr) : Option (Declarator × Tag) :=
  match declarators, type.shape.tag? with
  | [declarator], some tag => some (declarator, tag)
  | _, _ => none

theorem typed?_eq_some_iff (declarators : List Declarator) (type : TypeExpr)
    (declarator : Declarator) (tag : Tag) :
    typed? declarators type = some (declarator, tag) ↔
      declarators = [declarator] ∧ type.shape.tag? = some tag := by
  unfold typed?
  split
  · rename_i typed
    simp [typed]
  · rename_i other
    constructor
    · intro h; cases h
    · rintro ⟨one, typed⟩; exact absurd typed (other declarator tag one)

end Declarator

def LocalDeclaration.binding? (declaration : LocalDeclaration) : Option (Declarator × Tag) :=
  Declarator.typed? declaration.declarators declaration.type

def Field.binding? (field : Field) : Option (Declarator × Tag) :=
  Declarator.typed? field.declarators field.type

/-- Stands in where no source is at hand. -/
def Span.unknown : Span := ⟨.unknown, .unknown⟩

/-- `type name = value;` -/
def Statement.declare (type : TypeShape) (name : String) (value : Expression) : Statement :=
  .declaration ⟨⟨type, .unknown⟩, [⟨name, some value, .unknown⟩], .unknown⟩

/-- `void name(parameters) { body }` -/
def Method.procedure (name : String) (parameters : List Parameter) (body : List Statement) :
    Method :=
  ⟨[], ⟨.primitive .void, .unknown⟩, name, parameters, some ⟨body, .unknown⟩, .unknown⟩

/-- A unit of the language in which a value does not fit, another has no type, and a block next to a
declaration uses the same name:
```
class C {
  int a;
  void m(int p) {
    int x = p;
    { boolean b = null; C y = null; { } }
    boolean y = z;
  }
}
```
-/
def CompilationUnit.sample : CompilationUnit :=
  let field : Field := ⟨[], ⟨.primitive .int, .unknown⟩, [⟨"a", none, .unknown⟩], .unknown⟩
  let method := Method.procedure "m" [⟨"p", ⟨.primitive .int, .unknown⟩, .unknown⟩]
    [.declare (.primitive .int) "x" (.name "p" .unknown),
      .block [.declare (.primitive .boolean) "b" (.null .unknown),
        .declare (.simple "C") "y" (.null .unknown), .block [] .unknown] .unknown,
      .declare (.primitive .boolean) "y" (.name "z" .unknown)]
  ⟨none, [], [⟨"C", [], [field], [method], [], .unknown⟩], .unknown⟩

/-- What the sample has on record. -/
def Signatures.sample : Signatures :=
  ⟨[("C.a", .int), ("C.m", .void)], [("C.m", [("p", .int)])]⟩

end Javelet
