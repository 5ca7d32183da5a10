import Javelet.Proofs.Checking
import Javelet.Proofs.Members
import Javelet.Proofs.Parallel
import Javelet.Proofs.Vocabulary

namespace Javelet

def TypeShape.rename (r : String → String) : TypeShape → TypeShape
  | .primitive p => .primitive p
  | .simple name => .simple (r name)
  | .qualified parts => .qualified (parts.map r)
  | .array element => .array (element.rename r)

def TypeExpr.rename (r : String → String) (t : TypeExpr) : TypeExpr :=
  { t with shape := t.shape.rename r }

def Expression.rename (r : String → String) : Expression → Expression
  | .name text span => .name (r text) span
  | e => e

def Declarator.rename (r : String → String) (d : Declarator) : Declarator :=
  { d with name := r d.name, value := d.value.map (Expression.rename r) }

def LocalDeclaration.rename (r : String → String) (d : LocalDeclaration) : LocalDeclaration :=
  { d with type := d.type.rename r, declarators := d.declarators.map (Declarator.rename r) }

mutual

def Statement.rename (r : String → String) : Statement → Statement
  | .block body span => .block (Statement.renameIn r body) span
  | .declaration d => .declaration (d.rename r)

def Statement.renameIn (r : String → String) : List Statement → List Statement
  | [] => []
  | first :: rest => first.rename r :: Statement.renameIn r rest

end

theorem Statement.renameIn_eq_map (r : String → String) (body : List Statement) :
    renameIn r body = body.map (rename r) := by
  induction body with
  | nil => rfl
  | cons first rest ih => rw [renameIn, ih, List.map_cons]

def Block.rename (r : String → String) (b : Block) : Block :=
  { b with body := b.body.map (Statement.rename r) }

theorem Statement.ofBlock_rename (r : String → String) (b : Block) :
    ofBlock (b.rename r) = (ofBlock b).rename r := by
  rw [ofBlock, ofBlock, rename, renameIn_eq_map, Block.rename]

def Parameter.rename (r : String → String) (p : Parameter) : Parameter :=
  { p with name := r p.name, type := p.type.rename r }

def Field.rename (r : String → String) (f : Field) : Field :=
  { f with type := f.type.rename r, declarators := f.declarators.map (Declarator.rename r) }

def Method.rename (r : String → String) (m : Method) : Method :=
  { m with
    type := m.type.rename r, name := r m.name, parameters := m.parameters.map (Parameter.rename r)
    body := m.body.map (Block.rename r) }

mutual

def Class.rename (r : String → String) : Class → Class
  | ⟨name, modifiers, fields, methods, nested, span⟩ =>
    ⟨r name, modifiers, fields.map (Field.rename r), methods.map (Method.rename r),
      Class.renameAll r nested, span⟩

def Class.renameAll (r : String → String) : List Class → List Class
  | [] => []
  | first :: rest => first.rename r :: Class.renameAll r rest

end

/-- A unit with other names for all that it declares and uses. A package and imports are paths, and
stay. -/
def CompilationUnit.rename (r : String → String) (u : CompilationUnit) : CompilationUnit :=
  { u with classes := u.classes.map (Class.rename r) }

section
variable {r r' : String → String}

/-- Both give the same new names to what is written. -/
def Mark.AgreeOn (r r' : String → String) (ms : List Mark) : Prop :=
  ∀ text, .name text ∈ ms → r text = r' text

theorem Mark.AgreeOn.of_subset {ms ns : List Mark} (agree : AgreeOn r r' ns) (within : ms ⊆ ns) :
    AgreeOn r r' ms :=
  fun text member => agree text (within member)

theorem Mark.mem_dotted {parts : List String} {part : String} (member : part ∈ parts) :
    .name part ∈ dotted parts := by
  cases parts with
  | nil => cases member
  | cons first others =>
    rw [dotted]
    obtain rfl | later := List.mem_cons.mp member
    · exact List.mem_cons_self
    · exact List.mem_cons_of_mem _ (List.mem_flatMap.mpr ⟨part, later, by simp⟩)

theorem TypeShape.rename_congr {shape : TypeShape} (agree : Mark.AgreeOn r r' shape.marks) :
    shape.rename r = shape.rename r' := by
  induction shape with
  | primitive p => rfl
  | simple name => rw [rename, rename, agree name (List.mem_singleton_self _)]
  | qualified parts =>
    rw [rename, rename, List.map_congr_left fun part member => agree part (Mark.mem_dotted member)]
  | array element ih => rw [rename, rename, ih (agree.of_subset (List.subset_append_left ..))]

theorem TypeExpr.rename_congr {t : TypeExpr} (agree : Mark.AgreeOn r r' t.shape.marks) :
    t.rename r = t.rename r' := by
  rw [rename, rename, TypeShape.rename_congr agree]

theorem Expression.rename_congr {e : Expression} (agree : Mark.AgreeOn r r' [e.mark]) :
    e.rename r = e.rename r' := by
  cases e with
  | name text span => rw [rename, rename, agree text (List.mem_singleton_self _)]
  | number | boolean | null => rfl

theorem Declarator.rename_congr {d : Declarator} (agree : Mark.AgreeOn r r' d.marks) :
    d.rename r = d.rename r' := by
  have name := agree d.name List.mem_cons_self
  have value : d.value.map (Expression.rename r) = d.value.map (Expression.rename r') := by
    cases present : d.value with
    | none => rfl
    | some e =>
      have own : Mark.AgreeOn r r' [e.mark] := by
        apply agree.of_subset
        simp [marks, present]
      rw [Option.map_some, Option.map_some, Expression.rename_congr own]
  rw [rename, rename, name, value]

theorem Declarator.list_rename_congr {ds : List Declarator}
    (agree : Mark.AgreeOn r r' (listMarks ds)) : ds.map (rename r) = ds.map (rename r') := by
  apply List.map_congr_left
  intro d member
  apply rename_congr
  exact agree.of_subset fun m own => Mark.mem_listed (List.mem_map_of_mem member) own

theorem LocalDeclaration.rename_congr {d : LocalDeclaration} (agree : Mark.AgreeOn r r' d.marks) :
    d.rename r = d.rename r' := by
  have front : Mark.AgreeOn r r' (d.type.shape.marks ++ Declarator.listMarks d.declarators) :=
    agree.of_subset (List.subset_append_left ..)
  rw [rename, rename, TypeExpr.rename_congr (front.of_subset (List.subset_append_left ..)),
    Declarator.list_rename_congr (front.of_subset (List.subset_append_right ..))]

theorem Statement.rename_congr :
    (∀ s : Statement, Mark.AgreeOn r r' s.marks → s.rename r = s.rename r') ∧
    ∀ body, Mark.AgreeOn r r' (marksIn body) → renameIn r body = renameIn r' body := by
  apply Statement.induct
  case block =>
    intro body span inside agree
    have within : Mark.AgreeOn r r' (marksIn body) := by
      apply agree.of_subset
      intro m own
      simp [marks, own]
    rw [rename, rename, inside within]
  case declaration =>
    intro d agree
    rw [rename, rename, LocalDeclaration.rename_congr agree]
  case nil =>
    intro _
    rfl
  case cons =>
    intro first rest head tail agree
    rw [renameIn, renameIn, head (agree.of_subset (List.subset_append_left ..)),
      tail (agree.of_subset (List.subset_append_right ..))]

theorem Block.rename_congr {b : Block} (agree : Mark.AgreeOn r r' b.marks) :
    b.rename r = b.rename r' := by
  have within : Mark.AgreeOn r r' (Statement.marksIn b.body) := by
    apply agree.of_subset
    intro m own
    rw [Statement.marksIn_eq_flatMap] at own
    simp [marks, own]
  rw [rename, rename, ← Statement.renameIn_eq_map, ← Statement.renameIn_eq_map,
    Statement.rename_congr.2 _ within]

theorem Parameter.rename_congr {p : Parameter} (agree : Mark.AgreeOn r r' p.marks) :
    p.rename r = p.rename r' := by
  have name := agree p.name (by simp [marks])
  rw [rename, rename, name, TypeExpr.rename_congr (agree.of_subset (List.subset_append_left ..))]

theorem Field.rename_congr {f : Field} (agree : Mark.AgreeOn r r' f.marks) :
    f.rename r = f.rename r' := by
  have shape : Mark.AgreeOn r r' f.type.shape.marks :=
    agree.of_subset fun m own => by simp [marks, own]
  have named : Mark.AgreeOn r r' (Declarator.listMarks f.declarators) :=
    agree.of_subset fun m own => by simp [marks, own]
  rw [rename, rename, TypeExpr.rename_congr shape, Declarator.list_rename_congr named]

theorem Method.rename_congr {m : Method} (agree : Mark.AgreeOn r r' m.marks) :
    m.rename r = m.rename r' := by
  have shape : Mark.AgreeOn r r' m.type.shape.marks :=
    agree.of_subset fun mark own => by simp [marks, marksWith, own]
  have name := agree m.name (by simp [marks, marksWith, tail])
  have parameters : m.parameters.map (Parameter.rename r) =
      m.parameters.map (Parameter.rename r') := by
    apply List.map_congr_left
    intro p member
    apply Parameter.rename_congr
    apply agree.of_subset
    intro mark own
    have listed := Mark.mem_listed (List.mem_map_of_mem member) own
    simp [marks, marksWith, tail, listed]
  have body : m.body.map (Block.rename r) = m.body.map (Block.rename r') := by
    cases hasBody : m.body with
    | none => rfl
    | some b =>
      have own : Mark.AgreeOn r r' b.marks := by
        apply agree.of_subset
        intro mark inside
        simp [marks, marksWith, tail, hasBody, bodyMarks, inside]
      rw [Option.map_some, Option.map_some, Block.rename_congr own]
  rw [rename, rename, TypeExpr.rename_congr shape, name, parameters, body]

mutual

theorem Class.rename_congr :
    ∀ c : Class, Mark.AgreeOn r r' c.marks → c.rename r = c.rename r'
  | ⟨name, modifiers, fields, methods, nested, span⟩, agree => by
    have ownName := agree name (by simp [marks])
    have eachField : fields.map (Field.rename r) = fields.map (Field.rename r') := by
      apply List.map_congr_left
      intro f member
      apply Field.rename_congr
      apply agree.of_subset
      intro m own
      simp only [marks, List.mem_append, List.mem_cons, List.mem_flatMap]
      exact .inr (.inr (.inr (.inr (.inl (.inl (.inl ⟨f, member, own⟩))))))
    have eachMethod : methods.map (Method.rename r) = methods.map (Method.rename r') := by
      apply List.map_congr_left
      intro method member
      apply Method.rename_congr
      apply agree.of_subset
      intro m own
      simp only [marks, List.mem_append, List.mem_cons, List.mem_flatMap]
      exact .inr (.inr (.inr (.inr (.inl (.inl (.inr ⟨method, member, own⟩))))))
    have eachClass := Class.renameAll_congr nested (agree.of_subset fun m own => by
      simp [marks, own])
    rw [rename, rename, ownName, eachField, eachMethod, eachClass]

theorem Class.renameAll_congr :
    ∀ all : List Class, Mark.AgreeOn r r' (marksIn all) → renameAll r all = renameAll r' all
  | [], _ => rfl
  | first :: rest, agree => by
    rw [renameAll, renameAll,
      Class.rename_congr first (agree.of_subset (List.subset_append_left ..)),
      Class.renameAll_congr rest (agree.of_subset (List.subset_append_right ..))]

end

theorem CompilationUnit.rename_congr {u : CompilationUnit}
    (agree : ∀ c ∈ u.classes, Mark.AgreeOn r r' c.marks) : u.rename r = u.rename r' := by
  rw [rename, rename, List.map_congr_left fun c member => c.rename_congr (agree c member)]

end

def Tag.rename (r : String → String) : Tag → Tag
  | .reference name => .reference (r name)
  | tag => tag

theorem TypeShape.tag?_rename (r : String → String) (shape : TypeShape) :
    (shape.rename r).tag? = shape.tag?.map (Tag.rename r) := by
  cases shape with
  | primitive p => cases p <;> rfl
  | simple | qualified | array => rfl

theorem TypeShape.resultTag?_rename (r : String → String) (shape : TypeShape) :
    (shape.rename r).resultTag? = shape.resultTag?.map (Tag.rename r) := by
  cases shape with
  | primitive p => cases p <;> rfl
  | simple | qualified | array => rfl

/-- A name and its type under other names. -/
def Tag.renameEntry (r : String → String) : String × Tag → String × Tag :=
  Prod.map r (Tag.rename r)

def Signatures.rename (r : String → String) (s : Signatures) : Signatures :=
  ⟨s.types.map (Tag.renameEntry r), s.parameters.map (Prod.map r (List.map (Tag.renameEntry r)))⟩

/-- A change of all texts under which nothing is confused: it leaves what differs different, goes
through the names of members, and keeps the names that a method binds by itself and the one of no
class at all. -/
structure Carries (r : String → String) : Prop where
  injective : Function.Injective r
  memberName : ∀ owner name,
    r (Signatures.memberName owner name) = Signatures.memberName (r owner) (r name)
  this : r "this" = "this"
  result : r "return" = "return"
  unnamed : r "" = ""

theorem Bindings.lookup_map {α β : Type} {r : String → String} (injective : Function.Injective r)
    (change : α → β) (bindings : List (String × α)) (name : String) :
    (bindings.map (Prod.map r change)).lookup (r name) = (bindings.lookup name).map change := by
  induction bindings with
  | nil => rfl
  | cons entry rest ih =>
    obtain ⟨key, a⟩ := entry
    by_cases same : name = key
    · simp [List.lookup, same]
    · have apart : r name ≠ r key := fun h => same (injective h)
      simp [List.lookup, beq_eq_false_iff_ne.mpr same, beq_eq_false_iff_ne.mpr apart, ih]

namespace Tag

theorem isError_rename (r : String → String) (tag : Tag) :
    (tag.rename r).isError = tag.isError := by
  cases tag <;> rfl

theorem isVoid_rename (r : String → String) (tag : Tag) : (tag.rename r).isVoid = tag.isVoid := by
  cases tag <;> rfl

theorem assignable_rename {r : String → String} (injective : Function.Injective r)
    (left right : Tag) : (left.rename r).assignable (right.rename r) = left.assignable right := by
  cases left <;> cases right <;>
    simp [rename, assignable, isError, isNull, isVoid, isPrimitive, injective.eq_iff]

theorem allVoid_rename (r : String → String) (tags : List Tag) :
    allVoid (tags.map (rename r)) = (allVoid tags).rename r := by
  have same : (tags.map (rename r)).all isVoid = tags.all isVoid := by
    simp [List.all_map, Function.comp_def, isVoid_rename]
  unfold allVoid
  rw [same]
  split <;> rfl

end Tag

theorem Field.supported_rename (r : String → String) (f : Field) :
    (f.rename r).Supported ↔ f.Supported := by
  have type : (f.rename r).type.shape.tag?.isSome = f.type.shape.tag?.isSome := by
    simp [rename, TypeExpr.rename, TypeShape.tag?_rename]
  constructor
  · rintro ⟨modifiers, ⟨_, single⟩, typed⟩
    obtain ⟨declarator, single, _⟩ := List.map_eq_singleton_iff.mp single
    exact ⟨modifiers, ⟨declarator, single⟩, type ▸ typed⟩
  · rintro ⟨modifiers, ⟨declarator, single⟩, typed⟩
    exact ⟨modifiers, ⟨declarator.rename r, by simp [rename, single]⟩, type.trans typed⟩

theorem Method.supported_rename (r : String → String) (m : Method) :
    (m.rename r).Supported ↔ m.Supported := by
  have type : (m.rename r).type.shape.resultTag?.isSome = m.type.shape.resultTag?.isSome := by
    simp [rename, TypeExpr.rename, TypeShape.resultTag?_rename]
  have parameters : (∀ p ∈ (m.rename r).parameters, p.type.shape.tag?.isSome = true) ↔
      ∀ p ∈ m.parameters, p.type.shape.tag?.isSome = true := by
    simp [rename, Parameter.rename, TypeExpr.rename, TypeShape.tag?_rename]
  constructor
  · rintro ⟨modifiers, typed, each⟩
    exact ⟨modifiers, type ▸ typed, parameters.mp each⟩
  · rintro ⟨modifiers, typed, each⟩
    exact ⟨modifiers, type.trans typed, parameters.mpr each⟩

theorem Class.renameAll_eq_map (r : String → String) (classes : List Class) :
    renameAll r classes = classes.map (rename r) := by
  induction classes with
  | nil => rfl
  | cons first rest ih => rw [renameAll, ih, List.map_cons]

theorem Class.memberNames_rename (r : String → String) (c : Class) :
    (c.rename r).memberNames = c.memberNames.map r := by
  obtain ⟨name, modifiers, fields, methods, nested, span⟩ := c
  simp [memberNames, rename, List.flatMap_map, List.map_flatMap, Function.comp_def, Field.rename,
    Declarator.rename, Method.rename]

theorem Class.supported_rename {r : String → String} (injective : Function.Injective r)
    (c : Class) : (c.rename r).Supported ↔ c.Supported := by
  have distinct : (c.rename r).memberNames.Nodup ↔ c.memberNames.Nodup := by
    rw [memberNames_rename, List.nodup_map_iff injective]
  obtain ⟨name, modifiers, fields, methods, nested, span⟩ := c
  have flat : renameAll r nested = [] ↔ nested = [] := by
    rw [renameAll_eq_map, List.map_eq_nil_iff]
  have eachField : (∀ f ∈ fields.map (Field.rename r), f.Supported) ↔
      ∀ f ∈ fields, f.Supported := by
    simp [Field.supported_rename]
  have eachMethod : (∀ m ∈ methods.map (Method.rename r), m.Supported) ↔
      ∀ m ∈ methods, m.Supported := by
    simp [Method.supported_rename]
  constructor
  · rintro ⟨visible, none, fields, methods, apart⟩
    exact ⟨visible, flat.mp none, eachField.mp fields, eachMethod.mp methods, distinct.mp apart⟩
  · rintro ⟨visible, none, fields, methods, apart⟩
    exact ⟨visible, flat.mpr none, eachField.mpr fields, eachMethod.mpr methods,
      distinct.mpr apart⟩

theorem CompilationUnit.supported_rename {r : String → String} (injective : Function.Injective r)
    (u : CompilationUnit) : (u.rename r).Supported ↔ u.Supported := by
  have classes : (∀ c ∈ (u.rename r).classes, c.Supported) ↔ ∀ c ∈ u.classes, c.Supported := by
    simp [rename, Class.supported_rename injective]
  have single : (u.rename r).classes.length = u.classes.length := by simp [rename]
  constructor
  · rintro ⟨imports, one, each⟩
    exact ⟨imports, single ▸ one, classes.mp each⟩
  · rintro ⟨imports, one, each⟩
    exact ⟨imports, single.trans_le one, classes.mpr each⟩

theorem Signatures.rename_concat (r : String → String) (all : List Signatures) :
    (concat all).rename r = concat (all.map (rename r)) := by
  induction all with
  | nil => rfl
  | cons s rest ih =>
    rw [List.map_cons]
    change (s.append (concat rest)).rename r = (s.rename r).append (concat (rest.map (rename r)))
    rw [← ih]
    simp [append, rename]

section
variable {r : String → String} (carries : Carries r)
include carries

theorem Field.signatures_rename (owner : String) (f : Field) :
    (f.rename r).signatures (r owner) = (f.signatures owner).rename r := by
  obtain ⟨modifiers, type, declarators, span⟩ := f
  match declarators with
  | [] => rfl
  | [d] =>
    simp only [signatures, binding?, Declarator.typed?, rename, TypeExpr.rename, Declarator.rename,
      List.map_cons, List.map_nil, TypeShape.tag?_rename]
    cases type.shape.tag? with
    | none => rfl
    | some tag => simp [Signatures.rename, Tag.renameEntry, carries.memberName]
  | _ :: _ :: _ => rfl

omit carries in
theorem Parameter.tags_rename (written : List Parameter) :
    tags (written.map (rename r)) = (tags written).map (Tag.renameEntry r) := by
  induction written with
  | nil => rfl
  | cons p rest ih =>
    unfold tags at ih ⊢
    rw [List.map_cons, List.filterMap_cons, List.filterMap_cons, ih]
    cases typed : p.type.shape.tag? with
    | none => simp [rename, TypeExpr.rename, TypeShape.tag?_rename, typed]
    | some tag => simp [rename, TypeExpr.rename, TypeShape.tag?_rename, typed, Tag.renameEntry]

theorem Method.signatures_rename (owner : String) (m : Method) :
    (m.rename r).signatures (r owner) = (m.signatures owner).rename r := by
  unfold signatures
  simp only [rename, TypeExpr.rename, TypeShape.resultTag?_rename, Parameter.tags_rename]
  cases m.type.shape.resultTag? with
  | none => rfl
  | some tag => simp [Signatures.rename, Tag.renameEntry, carries.memberName]

theorem Class.signatures_rename (c : Class) :
    (c.rename r).signatures = c.signatures.rename r := by
  obtain ⟨name, modifiers, fields, methods, nested, span⟩ := c
  simp only [signatures, rename, Signatures.rename_concat, List.map_append, List.map_map]
  congr 2
  · exact List.map_congr_left fun f _ => f.signatures_rename carries name
  · exact List.map_congr_left fun m _ => m.signatures_rename carries name

/-- What is on record of a renamed unit is the record under the new names. -/
theorem Signatures.ofUnit_rename (u : CompilationUnit) (s' : Signatures) :
    ofUnit (u.rename r) = .ok s' ↔ ∃ s, ofUnit u = .ok s ∧ s' = s.rename r := by
  have recorded : concat ((u.rename r).classes.map Class.signatures) =
      (concat (u.classes.map Class.signatures)).rename r := by
    rw [rename_concat, CompilationUnit.rename, List.map_map, List.map_map]
    exact congrArg concat (List.map_congr_left fun c _ => c.signatures_rename carries)
  rw [ofUnit_ok_iff, CompilationUnit.supported_rename carries.injective, recorded]
  constructor
  · rintro ⟨supported, rfl⟩
    exact ⟨_, (ofUnit_ok_iff ..).mpr ⟨supported, rfl⟩, rfl⟩
  · rintro ⟨s, collected, rfl⟩
    obtain ⟨supported, rfl⟩ := (ofUnit_ok_iff ..).mp collected
    exact ⟨supported, rfl⟩

end
end Javelet
