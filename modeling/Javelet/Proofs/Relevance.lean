import Javelet.Proofs.Checking
import Javelet.Proofs.Outline
import Javelet.Proofs.Parallel

/-! What of a record the check of a method depends on: the method's own entries, and what the record
says of the names in it. Two records that agree there make for the same check. Nor does it depend on
the methods that were checked before, since it counts blocks and statements from the start. -/
namespace Javelet
open Run (Alike SameAnswer SameEnd)

/-- Both records give the name the same type, or neither gives it one. -/
def Signatures.AgreeAt (s s' : Signatures) (name : String) : Prop := s.type? name = s'.type? name

namespace Checker

/-- The same scopes in the same class, around them the one record or the other. -/
structure Abreast (s s' : Signatures) (owner : String) (c c' : Checker) : Prop where
  record : c.scopes.globals = s
  record' : c'.scopes.globals = s'
  frames : c'.scopes.frames = c.scopes.frames
  owner_eq : c.className = owner
  owner_eq' : c'.className = owner

/-- Blocks and statements are also counted alike. What was reported does not matter. -/
structure InStep (s s' : Signatures) (owner : String) (c c' : Checker) : Prop
    extends Abreast s s' owner c c' where
  blocks : c'.blocks = c.blocks
  statements : c'.statements = c.statements

theorem Abreast.typeOf {s s' : Signatures} {owner name : String} {c c' : Checker}
    (like : Abreast s s' owner c c') (agree : s.AgreeAt s' name) :
    c'.scopes.typeOf name = c.scopes.typeOf name := by
  unfold Scopes.typeOf
  rw [like.frames, like.record, like.record', agree]

end Checker

/-- The two records serve a method alike. -/
structure Method.ServedAlike (s s' : Signatures) (owner : String) (m : Method) : Prop where
  parameters : s.parameters? (Signatures.memberName owner m.name) =
    s'.parameters? (Signatures.memberName owner m.name)
  type : s.AgreeAt s' (Signatures.memberName owner m.name)
  recorded : ∀ entries, s.parameters? (Signatures.memberName owner m.name) = some entries →
    ∀ entry ∈ entries, s.AgreeAt s' entry.1
  implied : s.AgreeAt s' "this" ∧ s.AgreeAt s' "return"
  body : ∀ b, m.body = some b → b.outline.Spells (s.AgreeAt s')

namespace Check

variable {α β : Type} {s s' : Signatures} {owner : String}

/-- Against either record the step does the same. -/
def Shared (s s' : Signatures) (owner : String) (x : Check α) : Prop :=
  Alike Eq (Checker.InStep s s' owner) Eq x x

theorem Shared.bind {x : Check α} {f : α → Check β} (first : Shared s s' owner x)
    (further : ∀ a, Shared s s' owner (f a)) : Shared s s' owner (x >>= f) := by
  apply Alike.bind first
  rintro a _ rfl
  exact further a

theorem Shared.pure (a : α) : Shared s s' owner (Pure.pure a) := Alike.pure rfl

/-- A step that always ends well, and looks at no more than what is alike. -/
theorem step_shared {x : Check α} (f : Checker → α) (g : Checker → Checker)
    (runs : ∀ c, x.run c = .ok (f c) (g c))
    (keeps : ∀ c c', c.InStep s s' owner c' → f c = f c' ∧ (g c).InStep s s' owner (g c')) :
    Shared s s' owner x := by
  intro c c' like
  obtain ⟨same, states⟩ := keeps c c' like
  rw [runs, runs]
  exact .ok same states

theorem emit_shared (event : Event) : Shared s s' owner (emit event) :=
  step_shared _ _ (fun _ => rfl) fun _ _ like => ⟨rfl, { like with }⟩

theorem pushScope_shared : Shared s s' owner pushScope := by
  apply step_shared _ _ run_pushScope
  intro c c' like
  refine ⟨rfl, { like with frames := ?_ }⟩
  simp only [Checker.opened, Scopes.push, like.frames]

theorem popScope_shared : Shared s s' owner popScope := by
  apply step_shared (fun _ => ()) Checker.closed fun _ => rfl
  intro c c' like
  refine ⟨rfl, { like with frames := ?_ }⟩
  simp only [Checker.closed, Scopes.pop, like.frames]

theorem nextBlock_shared : Shared s s' owner nextBlock := by
  apply step_shared _ _ fun _ => rfl
  intro c c' like
  refine ⟨by rw [like.blocks], { like with blocks := ?_ }⟩
  simp only [like.blocks]

theorem nextStatement_shared : Shared s s' owner nextStatement := by
  apply step_shared _ _ run_nextStatement
  intro c c' like
  refine ⟨by rw [like.statements], { like with statements := ?_ }⟩
  simp only [Checker.numbered, like.statements]

theorem typeOf_shared {name : String} (agree : s.AgreeAt s' name) :
    Shared s s' owner (typeOf name) := by
  apply step_shared (·.scopes.typeOf name) id fun _ => rfl
  intro c c' like
  exact ⟨(like.typeOf agree).symm, like⟩

theorem bindName_shared {name : String} (agree : s.AgreeAt s' name) (tag : Tag)
    (position : Position) : Shared s s' owner (bindName name tag position) := by
  have bound (c c' : Checker) (like : c.InStep s s' owner c') :
      SameAnswer Eq (fun a b => a.globals = s ∧ b.globals = s' ∧ b.frames = a.frames)
        (c.scopes.bind name tag position) (c'.scopes.bind name tag position) := by
    unfold Scopes.bind
    dsimp only
    rw [like.typeOf agree, like.frames]
    by_cases free : (c.scopes.typeOf name).isError = true
    · rw [if_pos free, if_pos free]
      cases c.scopes.frames with
      | nil => exact .error rfl
      | cons frame outer => exact .ok ⟨like.record, like.record', rfl⟩
    · rw [if_neg free, if_neg free]
      exact .error rfl
  apply Alike.get.bind
  intro c c' like
  apply (Alike.ofExcept (bound c c' like)).bind
  rintro scopes scopes' ⟨record, record', frames⟩
  apply Alike.bind (emit_shared _)
  intro _ _ _
  apply Alike.modify
  intro c c' like
  exact { like with record, record', frames }

theorem expression_shared {e : Expression} (agree : ∀ name ∈ e.names, s.AgreeAt s' name) :
    Shared s s' owner (expression e) := by
  have typed : Shared s s' owner (typeOfExpression e) := by
    cases e with
    | name text span => exact typeOf_shared (agree text (List.mem_singleton_self text))
    | _ => exact .pure _
  refine typed.bind fun tag => ?_
  exact (emit_shared _).bind fun _ => .pure _

theorem initializer_shared {value : Option Expression}
    (agree : ∀ e ∈ value, ∀ name ∈ e.names, s.AgreeAt s' name) (left : Tag) :
    Shared s s' owner (initializer left value) := by
  cases value with
  | none => exact .pure _
  | some e =>
    refine (expression_shared (agree e rfl)).bind fun right => ?_
    exact .pure _

theorem localDeclaration_shared {d : LocalDeclaration}
    (spelled : d.outline.Spells (s.AgreeAt s')) : Shared s s' owner (localDeclaration d) := by
  have parts := spelled.parts _ (List.mem_singleton_self _)
  have single : SameAnswer Eq (fun a b => a = b ∧ a ∈ d.declarators) d.declarator
      d.declarator := by
    unfold LocalDeclaration.declarator
    match d.declarators with
    | [] => exact .error rfl
    | [x] => exact .ok ⟨rfl, List.mem_singleton_self x⟩
    | _ :: _ :: _ => exact .error rfl
  have typed : SameAnswer Eq Eq (d.type.resolve false) (d.type.resolve false) := by
    cases d.type.resolve false with
    | ok tag => exact .ok rfl
    | error e => exact .error rfl
  apply (Alike.ofExcept single).bind
  rintro x _ ⟨rfl, member⟩
  have own := parts _ (List.mem_map_of_mem member)
  have named : s.AgreeAt s' x.name := own.names _ (List.mem_singleton_self _)
  have valued (e : Expression) (value : e ∈ x.value) : ∀ name ∈ e.names, s.AgreeAt s' name :=
    (own.parts _ (List.mem_singleton_self _) _
      (List.mem_map_of_mem (Option.mem_toList.mpr value))).names
  apply (Alike.ofExcept typed).bind
  rintro tag _ rfl
  refine (bindName_shared named tag _).bind fun _ => ?_
  refine (typeOf_shared named).bind fun left => ?_
  refine (initializer_shared valued _).bind fun fits => ?_
  exact nextStatement_shared.bind fun number => .pure _

theorem blockOf_shared {inside : Check (List Derivation)} (shared : Shared s s' owner inside) :
    Shared s s' owner (blockOf inside) := by
  refine pushScope_shared.bind fun _ => ?_
  refine shared.bind fun parts => ?_
  refine popScope_shared.bind fun _ => ?_
  exact nextBlock_shared.bind fun number => .pure _

theorem statement_shared :
    (∀ st : Statement, st.outline.Spells (s.AgreeAt s') → Shared s s' owner (statement st)) ∧
    ∀ body, (∀ o ∈ Statement.outlines body, o.Spells (s.AgreeAt s')) →
      Shared s s' owner (statements body) := by
  apply Statement.induct
  case block =>
    intro body span inside spelled
    rw [Statement.outline] at spelled
    rw [statement]
    exact blockOf_shared (inside (spelled.parts _ (List.mem_singleton_self _)))
  case declaration =>
    intro d spelled
    rw [Statement.outline] at spelled
    rw [statement]
    exact localDeclaration_shared spelled
  case nil =>
    intro _
    exact .pure []
  case cons =>
    intro first rest head tail spelled
    rw [Statement.outlines, List.forall_mem_cons] at spelled
    rw [statements]
    refine (head spelled.1).bind fun part => ?_
    exact (tail spelled.2).bind fun parts => .pure _

theorem block_shared {b : Block} (spelled : b.outline.Spells (s.AgreeAt s')) :
    Shared s s' owner (block b) := by
  apply blockOf_shared (statement_shared.2 b.body _)
  rw [Statement.outlines_eq_map]
  exact spelled.parts _ (List.mem_singleton_self _)

theorem bindParameters_shared {entries : List (String × Tag)}
    (agree : ∀ entry ∈ entries, s.AgreeAt s' entry.1) (start : Position)
    (written : List Parameter) : Shared s s' owner (bindParameters start entries written) := by
  induction entries generalizing written with
  | nil =>
    rw [bindParameters]
    exact .pure ()
  | cons entry rest ih =>
    obtain ⟨name, tag⟩ := entry
    obtain ⟨here, there⟩ := List.forall_mem_cons.mp agree
    cases written with
    | nil =>
      rw [bindParameters]
      exact (bindName_shared here tag start).bind fun _ => ih there []
    | cons p others =>
      rw [bindParameters]
      exact (bindName_shared here tag p.span.start).bind fun _ => ih there others

/-- A method starts counting anew, so the counts before it need not be alike. -/
theorem method_abreast {m : Method} {body : Block} (served : m.ServedAlike s s' owner)
    (hasBody : m.body = some body) :
    Alike Eq (Checker.Abreast s s' owner) Eq (method m body) (method m body) := by
  intro c c' like
  unfold method
  rw [Run.bind_of_ok (run_resetNumbers c), Run.bind_of_ok (EStateM.run_get _),
    Run.bind_of_ok (EStateM.run_get _), Run.bind_of_ok (run_resetNumbers c'),
    Run.bind_of_ok (EStateM.run_get _), Run.bind_of_ok (EStateM.run_get _)]
  dsimp only
  rw [like.record, like.record', like.owner_eq, like.owner_eq', ← served.parameters]
  cases known : s.parameters? (Signatures.memberName owner m.name) with
  | none => exact .error rfl
  | some entries =>
    have restarted : Checker.InStep s s' owner
        { c with className := owner, blocks := 0, statements := 0 }
        { c' with className := owner, blocks := 0, statements := 0 } :=
      { like with owner_eq := rfl, owner_eq' := rfl, blocks := rfl, statements := rfl }
    refine SameEnd.imp (Shared.bind pushScope_shared (fun _ => ?_) _ _ restarted)
      fun _ _ inStep => inStep.toAbreast
    refine (bindParameters_shared (served.recorded entries known) _ _).bind fun _ => ?_
    refine (bindName_shared served.implied.1 _ _).bind fun _ => ?_
    refine (typeOf_shared served.type).bind fun result => ?_
    refine (bindName_shared served.implied.2 _ _).bind fun _ => ?_
    refine (block_shared (served.body body hasBody)).bind fun inner => ?_
    refine popScope_shared.bind fun _ => ?_
    exact (emit_shared _).bind fun _ => .pure _

theorem methods_abreast {all : List Method} (served : ∀ m ∈ all, m.ServedAlike s s' owner) :
    Alike Eq (Checker.Abreast s s' owner) Eq (methods all) (methods all) := by
  induction all with
  | nil => exact .pure rfl
  | cons m rest ih =>
    obtain ⟨here, there⟩ := List.forall_mem_cons.mp served
    cases hasBody : m.body with
    | none =>
      rw [methods_bodiless hasBody]
      exact ih there
    | some body =>
      rw [methods, hasBody]
      apply (method_abreast here hasBody).bind
      rintro part _ rfl
      apply (ih there).bind
      rintro parts _ rfl
      exact .pure rfl

end Check

/-- The verdict on a unit of one class, from what was derived of its methods. -/
def Verdict.ofMethods (owner : String) (parts : List Derivation) : Verdict :=
  let whole := Derivation.ofParts "CompilationUnit" [.ofParts ("class " ++ owner) parts]
  ⟨whole.tag.isVoid, whole.tree⟩

/-- Before the first method of a class. -/
def Checker.within (s : Signatures) (owner : String) : Checker :=
  { Checker.initial s with className := owner }

theorem Verdict.ofUnit_single {u : CompilationUnit} {cls : Class} (single : u.classes = [cls])
    (s : Signatures) :
    ofUnit s u = match (Check.methods cls.methods).run (.within s cls.name) with
      | .ok parts _ => .ok (ofMethods cls.name parts)
      | .error e _ => .error e := by
  rw [ofUnit_eq, Check.unit, single, Check.classes, Check.classes, Check.ofClass, Checker.within]
  simp only [EStateM.run_bind, EStateM.run_modify, EStateM.run_pure]
  cases (Check.methods cls.methods).run { Checker.initial s with className := cls.name } with
  | ok parts c => rfl
  | error e c => rfl

theorem Checker.within_abreast (s s' : Signatures) (owner : String) :
    Abreast s s' owner (within s owner) (within s' owner) := ⟨rfl, rfl, rfl, rfl, rfl⟩

/-- Records that serve all the methods alike give the same verdict. -/
theorem Verdict.ofUnit_served {u : CompilationUnit} {cls : Class} (single : u.classes = [cls])
    {s s' : Signatures} (served : ∀ m ∈ cls.methods, m.ServedAlike s s' cls.name) :
    ofUnit s u = ofUnit s' u := by
  have ends := Check.methods_abreast served _ _ (Checker.within_abreast s s' cls.name)
  rw [ofUnit_single single, ofUnit_single single]
  generalize (Check.methods cls.methods).run (.within s cls.name) = left at ends
  generalize (Check.methods cls.methods).run (.within s' cls.name) = right at ends
  cases ends with
  | ok same _ => rw [same]
  | error same => rw [same]

end Javelet
