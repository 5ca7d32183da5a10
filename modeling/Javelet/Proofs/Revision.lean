import Javelet.Checked
import Javelet.Proofs.Checking
import Javelet.Proofs.Parallel
import Javelet.Proofs.Relocation

/-! What becomes of a unit's declarations and of its check when its places are moved and its local
variables get other values. Places show in nothing but the places of errors. Values show in
derivations, and in no error. -/
namespace Javelet
open Run (Alike SameAnswer)

variable {r : Relocation}

theorem TypeExpr.resolve_move (written : TypeExpr) (allowVoid : Bool) :
    SameAnswer (fun e e' => e' = e.move r) Eq (written.resolve allowVoid)
      ((written.move r).resolve allowVoid) := by
  obtain ⟨shape, position⟩ := written
  cases shape with
  | primitive p =>
    cases p with
    | int => exact .ok rfl
    | boolean => exact .ok rfl
    | void =>
      cases allowVoid with
      | true => exact .ok rfl
      | false => exact .error rfl
    | _ => exact .error rfl
  | simple name => exact .ok rfl
  | qualified parts => exact .error rfl
  | array element => exact .error rfl

theorem Declarator.single_map (change : Declarator → Declarator)
    (names : ∀ d, (change d).name = d.name) (declarators : List Declarator) (span : Span) :
    SameAnswer (fun e e' => e' = e.move r) (fun d d' => d' = change d) (single declarators span)
      (single (declarators.map change) (span.move r)) := by
  match declarators with
  | [] => exact .error rfl
  | [d] => exact .ok rfl
  | first :: second :: rest =>
    apply SameAnswer.error
    simp [Error.move, Function.comp_def, names]
    rfl

namespace Collector

/-- The second collector records what the first does, and fails where it does. -/
def Moves {α : Type} (r : Relocation) (x y : Collector α) : Prop :=
  Alike (fun e e' => e' = e.move r) Eq Eq x y

theorem requireVisibility_moves (modifiers : List Modifier) (position : Position) :
    Moves r (requireVisibility modifiers position)
      (requireVisibility modifiers (r.start position)) := by
  unfold requireVisibility
  cases modifiers.find? fun m => !m.isVisibility with
  | none => exact Alike.pure rfl
  | some m => exact Alike.throw rfl

theorem declare_moves (name : String) (tag : Tag) (position : Position) :
    Moves r (declare name tag position) (declare name tag (r.start position)) := by
  apply Alike.get.bind
  rintro signatures _ rfl
  cases signatures.type? name with
  | none =>
    apply Alike.modify
    rintro s _ rfl
    rfl
  | some existing => exact Alike.throw rfl

theorem field_moves (owner : String) (f : Field) :
    Moves r (field owner f) (field owner (f.move r)) := by
  apply (requireVisibility_moves f.modifiers f.span.start).bind
  rintro _ _ rfl
  apply (Alike.ofExcept (f.type.resolve_move false)).bind
  rintro tag _ rfl
  have single := Declarator.single_map (r := r) (Declarator.move r) (fun _ => rfl) f.declarators
    f.span
  apply (Alike.ofExcept single).bind
  rintro declarator _ rfl
  exact declare_moves _ tag f.span.start

theorem parameters_moves (all : List Parameter) :
    Moves r (parameters all) (parameters (all.map (Parameter.move r))) := by
  apply Alike.mapM
  intro p
  apply (Alike.ofExcept (p.type.resolve_move false)).bind
  rintro tag _ rfl
  exact Alike.pure rfl

variable (change : Declarator → Declarator)

theorem method_moves (owner : String) (m : Method) :
    Moves r (method owner m) (method owner (m.revise change r)) := by
  apply (requireVisibility_moves m.modifiers m.span.start).bind
  rintro _ _ rfl
  apply (Alike.ofExcept (m.type.resolve_move true)).bind
  rintro tag _ rfl
  apply (parameters_moves m.parameters).bind
  rintro entries _ rfl
  apply (declare_moves _ tag m.span.start).bind
  rintro _ _ rfl
  apply Alike.modify
  rintro s _ rfl
  rfl

theorem requireNoNested_moves (c : Class) :
    Moves r (requireNoNested c) (requireNoNested (c.revise change r)) := by
  rw [Class.revise_eq]
  unfold requireNoNested
  cases c.nested with
  | nil => exact Alike.pure rfl
  | cons first rest =>
    apply Alike.throw
    rw [Class.revise_eq]
    rfl

theorem ofClass_moves (c : Class) : Moves r (ofClass c) (ofClass (c.revise change r)) := by
  have nested := requireNoNested_moves (r := r) change c
  rw [Class.revise_eq] at nested ⊢
  apply (requireVisibility_moves c.modifiers c.span.start).bind
  rintro _ _ rfl
  apply nested.bind
  rintro _ _ rfl
  apply (Alike.forM (field_moves c.name) c.fields).bind
  rintro _ _ rfl
  exact Alike.forM (method_moves change c.name) c.methods

theorem requireNoImport_moves (u : CompilationUnit) :
    Moves r (requireNoImport u) (requireNoImport (u.revise change r)) := by
  unfold requireNoImport CompilationUnit.revise
  cases u.imports with
  | nil => exact Alike.pure rfl
  | cons first rest => exact Alike.throw rfl

theorem requireOneClass_moves (u : CompilationUnit) :
    Moves r (requireOneClass u) (requireOneClass (u.revise change r)) := by
  unfold requireOneClass CompilationUnit.revise
  match u.classes with
  | [] => exact Alike.pure rfl
  | [c] => exact Alike.pure rfl
  | first :: second :: rest =>
    apply Alike.throw
    simp [Error.move, Class.revise_eq]
    rfl

theorem unit_moves (u : CompilationUnit) : Moves r (unit u) (unit (u.revise change r)) := by
  apply (requireNoImport_moves change u).bind
  rintro _ _ rfl
  apply (requireOneClass_moves change u).bind
  rintro _ _ rfl
  exact Alike.forM (ofClass_moves change) u.classes

end Collector

/-- A revised unit declares what the unit does. -/
theorem Signatures.ofUnit_revise (u : CompilationUnit) (change : Declarator → Declarator) :
    SameAnswer (fun e e' => e' = e.move r) Eq (ofUnit u) (ofUnit (u.revise change r)) := by
  have ends := Collector.unit_moves (r := r) change u {} {} rfl
  unfold ofUnit
  generalize (Collector.unit u).run {} = left at ends
  generalize (Collector.unit (u.revise change r)).run {} = right at ends
  cases ends with
  | ok _ same => exact .ok same
  | error same => exact .error same

theorem Expression.text_erase (e : Expression) : e.erase.text = e.text := by
  cases e with
  | boolean value span => cases value <;> rfl
  | _ => rfl

theorem Expression.typeIn_erase (env : Environment) (e : Expression) :
    e.erase.typeIn env = e.typeIn env := by
  cases e <;> rfl

theorem Derivation.ofValue_erase (left : Tag) (env : Environment) (value : Option Expression) :
    ofValue left env (value.map Expression.erase) = ofValue left env value := by
  cases value with
  | none => rfl
  | some e => simp only [Option.map_some, ofValue, Expression.text_erase, Expression.typeIn_erase]

theorem Checker.valued_erase (c : Checker) (value : Option Expression) :
    c.valued (value.map Expression.erase) = c.valued value := by
  cases value with
  | none => rfl
  | some e => simp only [Option.map_some, valued, Expression.text_erase, Expression.typeIn_erase]

/-- The names of variables stay and, if the change is to be exact, so do their values but for
places. -/
structure Declarator.Keeps (exact : Prop) (change : Declarator → Declarator) : Prop where
  name : ∀ d, (change d).name = d.name
  value : exact → ∀ d, (change d).value.map Expression.erase = d.value.map Expression.erase

/-- The same scopes in the same class, and also the same numbers and events if it is exact. -/
structure Checker.Matches (exact : Prop) (c c' : Checker) : Prop where
  scopes : c'.scopes = c.scopes
  className : c'.className = c.className
  all : exact → c' = c

namespace Check

variable {α β : Type} {exact : Prop}

/-- The second check fails where the first does, and if it is exact it also derives the same. -/
def Follows (r : Relocation) (exact : Prop) (x y : Check α) : Prop :=
  Alike (fun e e' => e' = e.move r) (Checker.Matches exact) (fun a b => exact → b = a) x y

theorem Follows.bind {x y : Check α} {f g : α → Check β} (first : Follows r exact x y)
    (further : ∀ a b, (exact → b = a) → Follows r exact (f a) (g b)) :
    Follows r exact (x >>= f) (y >>= g) :=
  Alike.bind first further

theorem Follows.pure {a b : α} (same : exact → b = a) :
    Follows r exact (Pure.pure a) (Pure.pure b) :=
  Alike.pure same

theorem modify_follows {f g : Checker → Checker}
    (keeps : ∀ c c', c.Matches exact c' → (f c).Matches exact (g c')) :
    Follows r exact (modify f) (modify g) :=
  fun c c' like => .ok (fun _ => rfl) (keeps c c' like)

theorem emit_follows {event event' : Event} (same : exact → event' = event) :
    Follows r exact (emit event) (emit event') := by
  apply modify_follows
  intro c c' like
  exact ⟨like.scopes, like.className, fun h => by rw [like.all h, same h]⟩

/-- A step that is the same on both sides and reads the state alone: what it makes of the scopes may
depend on nothing but the scopes. -/
theorem step_follows {x : Check α} (f : Checker → α) (g : Checker → Checker)
    (runs : ∀ c, x.run c = .ok (f c) (g c))
    (scopes : ∀ c c', c'.scopes = c.scopes → (g c').scopes = (g c).scopes)
    (className : ∀ c, (g c).className = c.className) : Follows r exact x x := by
  intro c c' like
  have sameClass : (g c').className = (g c).className := by
    rw [className, className, like.className]
  rw [runs, runs]
  apply Run.SameEnd.ok
  · intro h
    rw [like.all h]
  · exact ⟨scopes c c' like.scopes, sameClass, fun h => by rw [like.all h]⟩

theorem pushScope_follows : Follows r exact pushScope pushScope := by
  apply step_follows _ _ run_pushScope
  · intro c c' same
    simp only [Checker.opened, same]
  · exact fun _ => rfl

theorem popScope_follows : Follows r exact popScope popScope := by
  apply step_follows (fun _ => ()) Checker.closed (fun _ => rfl)
  · intro c c' same
    simp only [Checker.closed, same]
  · exact fun _ => rfl

theorem nextBlock_follows : Follows r exact nextBlock nextBlock :=
  step_follows _ _ (fun _ => rfl) (fun _ _ same => same) fun _ => rfl

theorem nextStatement_follows : Follows r exact nextStatement nextStatement :=
  step_follows _ _ run_nextStatement (fun _ _ same => same) fun _ => rfl

theorem resetNumbers_follows : Follows r exact resetNumbers resetNumbers :=
  step_follows _ _ run_resetNumbers (fun _ _ same => same) fun _ => rfl

/-- Looking a name up gives the same type on both sides, exact or not. -/
theorem typeOf_alike (name : String) :
    Alike (fun e e' => e' = e.move r) (Checker.Matches exact) Eq (typeOf name) (typeOf name) := by
  intro c c' like
  rw [run_typeOf, run_typeOf, like.scopes]
  exact .ok rfl like

theorem bind_move (scopes : Scopes) (name : String) (tag : Tag) (position : Position) :
    SameAnswer (fun e e' => e' = e.move r) Eq (scopes.bind name tag position)
      (scopes.bind name tag (r.start position)) := by
  unfold Scopes.bind
  dsimp only
  by_cases free : (scopes.typeOf name).isError = true
  · rw [if_pos free, if_pos free]
    cases scopes.frames with
    | nil => exact .error rfl
    | cons frame outer => exact .ok rfl
  · rw [if_neg free, if_neg free]
    exact .error rfl

theorem bindName_follows (name : String) (tag : Tag) (position : Position) :
    Follows r exact (bindName name tag position) (bindName name tag (r.start position)) := by
  apply Alike.get.bind
  intro c c' like
  rw [like.scopes]
  apply (Alike.ofExcept (bind_move c.scopes name tag position)).bind
  rintro scopes _ rfl
  apply Follows.bind (emit_follows fun _ => rfl)
  intro _ _ _
  apply modify_follows
  intro c c' like
  exact ⟨rfl, like.className, fun h => by rw [like.all h]⟩

theorem initializer_follows {value value' : Option Expression}
    (same : exact → value'.map Expression.erase = value.map Expression.erase) (left : Tag) :
    Follows r exact (initializer left value) (initializer left value') := by
  intro c c' like
  rw [run_initializer, run_initializer]
  have results : exact → Derivation.ofValue left c'.scopes.environment value' =
      Derivation.ofValue left c.scopes.environment value := by
    intro h
    rw [← Derivation.ofValue_erase, same h, Derivation.ofValue_erase, like.all h]
  have states : exact → c'.valued value' = c.valued value := by
    intro h
    rw [← Checker.valued_erase, same h, Checker.valued_erase, like.all h]
  exact .ok results ⟨like.scopes, like.className, states⟩

theorem blockOf_follows {inside inside' : Check (List Derivation)}
    (follows : Follows r exact inside inside') :
    Follows r exact (blockOf inside) (blockOf inside') := by
  apply pushScope_follows.bind
  intro _ _ _
  apply follows.bind
  intro parts parts' sameParts
  apply popScope_follows.bind
  intro _ _ _
  apply nextBlock_follows.bind
  intro number number' sameNumber
  apply Follows.pure
  intro h
  rw [sameParts h, sameNumber h]

section
variable {change : Declarator → Declarator} (keeps : Declarator.Keeps exact change)
include keeps

/-- A value is looked at last, when nothing can fail any more. -/
theorem localDeclaration_follows (d : LocalDeclaration) :
    Follows r exact (localDeclaration d) (localDeclaration (d.revise change r)) := by
  apply (Alike.ofExcept (Declarator.single_map change keeps.name d.declarators d.span)).bind
  rintro declarator _ rfl
  apply (Alike.ofExcept (d.type.resolve_move false)).bind
  rintro declared _ rfl
  rw [keeps.name]
  apply (bindName_follows declarator.name declared d.span.start).bind
  intro _ _ _
  apply (typeOf_alike declarator.name).bind
  rintro left _ rfl
  apply (initializer_follows (fun h => keeps.value h declarator) _).bind
  intro fits fits' sameFits
  apply nextStatement_follows.bind
  intro number number' sameNumber
  apply Follows.pure
  intro h
  rw [sameFits h, sameNumber h]

theorem statement_follows :
    (∀ s, Follows r exact (statement s) (statement (s.revise change r))) ∧
    ∀ body, Follows r exact (statements body)
      (statements (Statement.reviseIn change r body)) := by
  apply Statement.induct
  case block =>
    intro body span inside
    rw [Statement.revise, statement, statement]
    exact blockOf_follows inside
  case declaration =>
    intro d
    rw [Statement.revise, statement, statement]
    exact localDeclaration_follows keeps d
  case nil =>
    exact Follows.pure fun _ => rfl
  case cons =>
    intro first rest head tail
    rw [Statement.reviseIn, statements, statements]
    apply head.bind
    intro part part' samePart
    apply tail.bind
    intro parts parts' sameParts
    apply Follows.pure
    intro h
    rw [samePart h, sameParts h]

theorem block_follows (b : Block) :
    Follows r exact (block b) (block (b.revise change r)) := by
  rw [block_eq_statement, block_eq_statement, Statement.ofBlock_revise]
  exact (statement_follows keeps).1 _

omit keeps in
theorem bindParameters_follows (start : Position) (entries : List (String × Tag))
    (written : List Parameter) :
    Follows r exact (bindParameters start entries written)
      (bindParameters (r.start start) entries (written.map (Parameter.move r))) := by
  induction entries generalizing written with
  | nil =>
    rw [bindParameters, bindParameters]
    exact .pure fun _ => rfl
  | cons entry rest ih =>
    obtain ⟨name, tag⟩ := entry
    cases written with
    | nil =>
      rw [List.map_nil, bindParameters, bindParameters]
      apply (bindName_follows name tag start).bind
      intro _ _ _
      exact ih []
    | cons p others =>
      rw [List.map_cons, bindParameters, bindParameters]
      apply (bindName_follows name tag p.span.start).bind
      intro _ _ _
      exact ih others

theorem method_follows (m : Method) (body : Block) :
    Follows r exact (method m body) (method (m.revise change r) (body.revise change r)) := by
  apply resetNumbers_follows.bind
  intro _ _ _
  apply Alike.get.bind
  intro c c' like
  rw [like.className]
  generalize c.className = owner
  apply Alike.get.bind
  intro c c' like
  rw [like.scopes]
  dsimp only [Method.revise]
  cases c.scopes.globals.parameters? (Signatures.memberName owner m.name) with
  | none => exact Alike.throw rfl
  | some parameters =>
    apply pushScope_follows.bind
    intro _ _ _
    apply (bindParameters_follows m.span.start parameters m.parameters).bind
    intro _ _ _
    apply (bindName_follows "this" (.reference owner) m.span.start).bind
    intro _ _ _
    apply (typeOf_alike _).bind
    rintro result _ rfl
    apply (bindName_follows "return" result m.span.start).bind
    intro _ _ _
    apply (block_follows keeps body).bind
    intro inner inner' sameInner
    apply popScope_follows.bind
    intro _ _ _
    apply Follows.bind (emit_follows fun h => by rw [sameInner h])
    intro _ _ _
    apply Follows.pure
    intro h
    rw [sameInner h]

theorem methods_follow (all : List Method) :
    Follows r exact (methods all) (methods (all.map (Method.revise change r))) := by
  induction all with
  | nil => exact .pure fun _ => rfl
  | cons m rest ih =>
    cases hasBody : m.body with
    | none =>
      have bodiless : (m.revise change r).body = none := by simp [Method.revise, hasBody]
      rw [List.map_cons, methods_bodiless hasBody, methods_bodiless bodiless]
      exact ih
    | some body =>
      have revised : (m.revise change r).body = some (body.revise change r) := by
        simp [Method.revise, hasBody]
      rw [List.map_cons, methods, methods, hasBody, revised]
      apply (method_follows keeps m body).bind
      intro part part' samePart
      apply ih.bind
      intro parts parts' sameParts
      apply Follows.pure
      intro h
      rw [samePart h, sameParts h]

theorem ofClass_follows (cls : Class) :
    Follows r exact (ofClass cls) (ofClass (cls.revise change r)) := by
  rw [Class.revise_eq]
  apply Follows.bind
  · apply modify_follows
    intro c c' like
    exact ⟨like.scopes, rfl, fun h => by rw [like.all h]⟩
  · intro _ _ _
    apply (methods_follow keeps cls.methods).bind
    intro parts parts' sameParts
    apply Follows.pure
    intro h
    rw [sameParts h]

theorem classes_follow (all : List Class) :
    Follows r exact (classes all) (classes (all.map (Class.revise change r))) := by
  induction all with
  | nil => exact .pure fun _ => rfl
  | cons c rest ih =>
    apply (ofClass_follows keeps c).bind
    intro part part' samePart
    apply ih.bind
    intro parts parts' sameParts
    apply Follows.pure
    intro h
    rw [samePart h, sameParts h]

theorem unit_follows (u : CompilationUnit) :
    Follows r exact (unit u) (unit (u.revise change r)) := by
  apply (classes_follow keeps u.classes).bind
  intro parts parts' sameParts
  apply Follows.pure
  intro h
  rw [sameParts h]

end
end Check

/-- The verdict on a revised unit is an error exactly if it is one on the unit, of the same cause.
If values were kept it is the same verdict. -/
theorem Verdict.ofUnit_revise {exact : Prop} {change : Declarator → Declarator}
    (keeps : Declarator.Keeps exact change) (signatures : Signatures) (u : CompilationUnit) :
    SameAnswer (fun e e' => e' = e.move r) (fun v v' => exact → v' = v) (ofUnit signatures u)
      (ofUnit signatures (u.revise change r)) := by
  have start : (Checker.initial signatures).Matches exact (.initial signatures) :=
    ⟨rfl, rfl, fun _ => rfl⟩
  have ends := Check.unit_follows (r := r) keeps u _ _ start
  rw [ofUnit_eq, ofUnit_eq]
  generalize (Check.unit u).run (.initial signatures) = left at ends
  generalize (Check.unit (u.revise change r)).run (.initial signatures) = right at ends
  cases ends with
  | ok same _ => exact .ok fun h => by rw [same h]
  | error same => exact .error same

end Javelet
