import Javelet.Derivation
import Javelet.Proofs.Run
import Javelet.Proofs.Scoping

namespace Javelet

/-- The type that a value has at a place. -/
def Expression.typeIn (env : Environment) : Expression → Tag
  | .name text _ => env.typeOf text
  | .number _ _ _ => .int
  | .boolean _ _ => .boolean
  | .null _ => .null

namespace Checker

def opened (c : Checker) : Checker :=
  { c with scopes := c.scopes.push, events := .entered c.scopes.push.depth :: c.events }

def closed (c : Checker) : Checker :=
  { c with scopes := c.scopes.pop, events := .left c.scopes.depth :: c.events }

def bound (c : Checker) (name : String) (tag : Tag) : Checker :=
  { c with scopes := c.scopes.extend [(name, tag)], events := .bound name tag :: c.events }

/-- After a value, if there is one, was typed. -/
def valued (c : Checker) (value : Option Expression) : Checker :=
  { c with events := match value with
    | none => c.events
    | some e => .typed e.text (e.typeIn c.scopes.environment) :: c.events }

def numbered (c : Checker) : Checker := { c with statements := c.statements + 1 }

/-- After the last statement of a block. -/
def blockDone (c : Checker) : Checker := { c.closed with blocks := c.blocks + 1 }

/-- At the start of a method, before its parameters are bound. -/
def restarted (c : Checker) : Checker := opened { c with blocks := 0, statements := 0 }

def boundAll (c : Checker) (entries : List (String × Tag)) : Checker :=
  entries.foldl (fun c entry => c.bound entry.1 entry.2) c

def methodDone (c : Checker) (name : String) (tag : Tag) : Checker :=
  { c.closed with events := .methodChecked name tag :: c.closed.events }

end Checker

namespace Derivation

/-- Whether a value fits a variable of type `left`, with what is said of it. -/
def ofValue (left : Tag) (env : Environment) : Option Expression → Bool × List Obligation
  | none => (!left.isError, [])
  | some value =>
    let right := value.typeIn env
    (left.assignable right, [(lookup value.text right).tree,
      .leaf (left.text ++ " := " ++ right.text) (left.assignable right)])

/-- What is derived of a variable, given its type and what its value can see. -/
def ofVariable (number : Nat) (env : Environment) (declarator : Declarator) (tag : Tag) :
    Derivation :=
  let value := ofValue tag env declarator.value
  let verdict : Tag := if value.1 then .void else .error
  ⟨verdict, .ofChildren (judgment s!"S{number}" verdict)
    ((lookup declarator.name tag).tree :: value.2)⟩

def ofMethod (name : String) (body : Derivation) : Derivation :=
  ⟨body.tag, .ofChildren (judgment ("method " ++ name) body.tag) [body.tree]⟩

end Derivation

/-- The names that a method's body finds bound, in the order of binding: the parameters that are on
record, `this`, and `return` with the type that the method's own name has by then. -/
def Method.entries (env : Environment) (owner : String) (m : Method) : List (String × Tag) :=
  let name := Signatures.memberName owner m.name
  let entries := (env.globals.parameters? name).getD [] ++ [("this", .reference owner)]
  entries ++ [("return", (env.extend entries.reverse).typeOf name)]

/-- What a method's body starts with. -/
def Method.environment (globals : Signatures) (owner : String) (m : Method) : Environment :=
  let around : Environment := ⟨globals, []⟩
  around.extend (m.entries around owner).reverse

namespace Check

theorem run_pushScope (c : Checker) : pushScope.run c = .ok () c.opened := rfl

theorem run_resetNumbers (c : Checker) :
    resetNumbers.run c = .ok () { c with blocks := 0, statements := 0 } := rfl

theorem run_typeOf (name : String) (c : Checker) :
    (typeOf name).run c = .ok (c.scopes.environment.typeOf name) c := by
  rw [Scopes.environment_typeOf]
  rfl

theorem run_nextStatement (c : Checker) :
    nextStatement.run c = .ok s!"S{c.statements}" c.numbered := rfl

theorem bindName_ok_iff (name : String) (tag : Tag) (position : Position) (c c' : Checker)
    (r : Unit) :
    (bindName name tag position).run c = .ok r c' ↔
      c.scopes.environment.typeOf name = .error ∧ c.scopes.frames ≠ [] ∧ c' = c.bound name tag := by
  unfold bindName
  rw [Run.bind_of_ok (EStateM.run_get c), Run.bind_ok_iff, Scopes.environment_typeOf]
  simp only [Run.ofExcept_ok_iff, Scopes.bind_ok_iff]
  constructor
  · rintro ⟨scopes, _, ⟨⟨free, opened, rfl⟩, rfl⟩, ended⟩
    cases ended
    exact ⟨free, opened, rfl⟩
  · rintro ⟨free, opened, rfl⟩
    exact ⟨_, c, ⟨⟨free, opened, rfl⟩, rfl⟩, rfl⟩

theorem bindName_error_iff (name : String) (tag : Tag) (position : Position) (c c' : Checker)
    (e : Error) :
    (bindName name tag position).run c = .error e c' ↔
      c.scopes.bind name tag position = .error e ∧ c' = c := by
  unfold bindName
  rw [Run.bind_of_ok (EStateM.run_get c), Run.bind_error_iff, Run.ofExcept_error_iff]
  constructor
  · rintro (failed | ⟨_, _, _, ended⟩)
    · exact failed
    · cases ended
  · exact .inl

theorem run_expression (e : Expression) (c : Checker) :
    (expression e).run c =
      .ok (.lookup e.text (e.typeIn c.scopes.environment)) (c.valued (some e)) := by
  cases e with
  | name text span =>
    unfold expression typeOfExpression
    rw [Run.bind_of_ok (run_typeOf text c)]
    rfl
  | number value text span => rfl
  | boolean value span => rfl
  | null span => rfl

theorem run_initializer (left : Tag) (value : Option Expression) (c : Checker) :
    (initializer left value).run c =
      .ok (Derivation.ofValue left c.scopes.environment value) (c.valued value) := by
  cases value with
  | none => rfl
  | some e =>
    unfold initializer
    rw [Run.bind_of_ok (run_expression e c)]
    rfl

theorem bound_environment {c : Checker} (opened : c.scopes.frames ≠ []) (name : String)
    (tag : Tag) :
    (c.bound name tag).scopes.environment = c.scopes.environment.bind name tag :=
  Scopes.environment_extend opened [(name, tag)]

/-- A declaration takes a free name in an open scope, and asks nothing of its value. -/
theorem localDeclaration_ok_iff (d : LocalDeclaration) (c c' : Checker) (r : Derivation) :
    (localDeclaration d).run c = .ok r c' ↔ ∃ declarator tag,
      d.binding? = some (declarator, tag) ∧
      c.scopes.environment.typeOf declarator.name = .error ∧ c.scopes.frames ≠ [] ∧
      r = .ofVariable c.statements (c.scopes.environment.bind declarator.name tag) declarator tag ∧
      c' = ((c.bound declarator.name tag).valued declarator.value).numbered := by
  unfold localDeclaration
  simp only [Run.bind_ok_iff, Run.ofExcept_ok_iff, LocalDeclaration.declarator,
    Declarator.single_ok_iff, TypeExpr.resolve_value_ok_iff, bindName_ok_iff, run_typeOf,
    run_initializer, LocalDeclaration.binding?, Declarator.typed?_eq_some_iff]
  constructor
  · rintro ⟨declarator, m, ⟨single, same⟩, tag, n, ⟨typed, same'⟩, _, _, ⟨free, opened, rfl⟩, rest⟩
    subst same' same
    refine ⟨declarator, tag, ⟨single, typed⟩, free, opened, ?_⟩
    obtain ⟨_, _, looked, _, _, tried, _, _, number, ended⟩ := rest
    cases looked
    cases tried
    cases number
    cases ended
    simp only [bound_environment opened, Environment.typeOf_bind_self]
    exact ⟨rfl, rfl⟩
  · rintro ⟨declarator, tag, ⟨single, typed⟩, free, opened, rfl, rfl⟩
    refine ⟨declarator, c, ⟨single, rfl⟩, tag, c, ⟨typed, rfl⟩, (), _, ⟨free, opened, rfl⟩, ?_⟩
    refine ⟨_, _, rfl, _, _, rfl, _, _, rfl, ?_⟩
    simp only [bound_environment opened, Environment.typeOf_bind_self]
    rfl

theorem blockOf_ok_iff (inside : Check (List Derivation)) (c c' : Checker) (d : Derivation) :
    (blockOf inside).run c = .ok d c' ↔ ∃ parts m, inside.run c.opened = .ok parts m ∧
      d = .ofParts s!"B{m.blocks}" parts ∧ c' = m.blockDone := by
  unfold blockOf
  rw [Run.bind_of_ok (run_pushScope c), Run.bind_ok_iff]
  constructor
  · rintro ⟨parts, m, run, ended⟩
    cases ended
    exact ⟨parts, m, run, rfl, rfl⟩
  · rintro ⟨parts, m, run, rfl, rfl⟩
    exact ⟨parts, m, run, rfl⟩

theorem block_ok_iff (body : List Statement) (span : Span) (c c' : Checker) (d : Derivation) :
    (statement (.block body span)).run c = .ok d c' ↔ ∃ parts m,
      (statements body).run c.opened = .ok parts m ∧
      d = .ofParts s!"B{m.blocks}" parts ∧ c' = m.blockDone := by
  rw [statement, blockOf_ok_iff]

theorem block_eq_statement (b : Block) : block b = statement (.ofBlock b) := by
  rw [Statement.ofBlock, statement, block]

theorem statements_nil_ok_iff (c c' : Checker) (parts : List Derivation) :
    (statements []).run c = .ok parts c' ↔ parts = [] ∧ c' = c := by
  rw [statements, Run.pure_ok_iff]

theorem statements_cons_ok_iff (first : Statement) (rest : List Statement) (c c' : Checker)
    (parts : List Derivation) :
    (statements (first :: rest)).run c = .ok parts c' ↔ ∃ part m others,
      (statement first).run c = .ok part m ∧ (statements rest).run m = .ok others c' ∧
      parts = part :: others := by
  rw [statements]
  exact Run.cons_ok_iff ..

/-- A statement changes the scopes by the names it declares, and a list of them only in the
innermost scope. Neither leaves the class. -/
theorem statement_scopes :
    (∀ s c c' d, (statement s).run c = .ok d c' →
      c'.scopes = c.scopes.extend (LocalDeclaration.allBindings s.declared) ∧
      c'.className = c.className) ∧
    ∀ body c c' parts, (statements body).run c = .ok parts c' →
      (∃ bindings, c'.scopes = c.scopes.extend bindings) ∧ c'.className = c.className := by
  apply Statement.induct
  case block =>
    intro body span inside c c' d run
    obtain ⟨parts, m, ran, rfl, rfl⟩ := (block_ok_iff ..).mp run
    obtain ⟨⟨bindings, scopes⟩, className⟩ := inside _ _ _ ran
    constructor
    · calc m.scopes.pop = (c.scopes.push.extend bindings).pop := by rw [scopes]; rfl
        _ = c.scopes := Scopes.pop_extend_push ..
        _ = c.scopes.extend [] := (Scopes.extend_nil _).symm
    · exact className
  case declaration =>
    intro d c c' r run
    rw [statement] at run
    obtain ⟨declarator, tag, bound, _, _, rfl, rfl⟩ := (localDeclaration_ok_iff ..).mp run
    simp [Statement.declared, LocalDeclaration.allBindings, LocalDeclaration.bindings, bound,
      Checker.numbered, Checker.valued, Checker.bound]
  case nil =>
    intro c c' parts run
    obtain ⟨rfl, rfl⟩ := (statements_nil_ok_iff ..).mp run
    exact ⟨⟨[], (Scopes.extend_nil _).symm⟩, rfl⟩
  case cons =>
    intro first rest head tail c c' parts run
    obtain ⟨part, m, others, ran, ranOthers, rfl⟩ := (statements_cons_ok_iff ..).mp run
    obtain ⟨scopes, className⟩ := head _ _ _ ran
    obtain ⟨⟨bindings, later⟩, sameClass⟩ := tail _ _ _ ranOthers
    refine ⟨⟨bindings ++ LocalDeclaration.allBindings first.declared, ?_⟩,
      sameClass.trans className⟩
    rw [later, scopes, Scopes.extend_extend]

/-- The place of a statement leads to the place of the next. -/
theorem statement_place {base : Environment} {s : Statement} {c m : Checker} {d : Derivation}
    {earlier : List LocalDeclaration} (opened : c.scopes.frames ≠ [])
    (place : c.scopes.environment = base.extend (LocalDeclaration.allBindings earlier))
    (run : (statement s).run c = .ok d m) :
    m.scopes.frames ≠ [] ∧ m.scopes.environment =
      base.extend (LocalDeclaration.allBindings (s.declared ++ earlier)) := by
  obtain ⟨scopes, _⟩ := statement_scopes.1 _ _ _ _ run
  constructor
  · rw [scopes]
    exact Scopes.extend_opened opened _
  · rw [scopes, Scopes.environment_extend opened, place, Environment.extend_extend,
      LocalDeclaration.allBindings_append]

theorem boundAll_scopes (entries : List (String × Tag)) (c : Checker) :
    (c.boundAll entries).scopes = c.scopes.extend entries.reverse := by
  induction entries generalizing c with
  | nil => exact (Scopes.extend_nil _).symm
  | cons entry rest ih =>
    calc ((c.bound entry.1 entry.2).boundAll rest).scopes =
          (c.scopes.extend [entry]).extend rest.reverse := ih _
      _ = c.scopes.extend (entry :: rest).reverse := by
        rw [Scopes.extend_extend, List.reverse_cons]

theorem boundAll_className (entries : List (String × Tag)) (c : Checker) :
    (c.boundAll entries).className = c.className := by
  induction entries generalizing c with
  | nil => rfl
  | cons entry rest ih => exact ih (c.bound entry.1 entry.2)

/-- Parameters are bound in order, each to a name that is free when its turn comes. -/
theorem bindParameters_ok_iff (start : Position) (entries : List (String × Tag))
    (written : List Parameter) (c c' : Checker) (r : Unit) (opened : c.scopes.frames ≠ []) :
    (bindParameters start entries written).run c = .ok r c' ↔
      c.scopes.environment.Admits entries ∧ c' = c.boundAll entries := by
  induction entries generalizing c written with
  | nil =>
    rw [bindParameters, Run.pure_ok_iff]
    simp [Environment.Admits, Checker.boundAll]
  | cons entry rest ih =>
    obtain ⟨name, tag⟩ := entry
    have next (written : List Parameter) :
        (bindParameters start rest written).run (c.bound name tag) = .ok r c' ↔
          (c.scopes.environment.bind name tag).Admits rest ∧
          c' = (c.bound name tag).boundAll rest := by
      rw [ih written (c.bound name tag) (Scopes.extend_opened opened _), bound_environment opened]
    have step (position : Position) (written : List Parameter) :
        (bindName name tag position >>= fun _ => bindParameters start rest written).run c =
          .ok r c' ↔ c.scopes.environment.Admits ((name, tag) :: rest) ∧
            c' = c.boundAll ((name, tag) :: rest) := by
      simp only [Run.bind_ok_iff, bindName_ok_iff, Environment.Admits]
      constructor
      · rintro ⟨_, _, ⟨free, _, rfl⟩, others⟩
        obtain ⟨later, same⟩ := (next written).mp others
        exact ⟨⟨free, later⟩, same⟩
      · rintro ⟨⟨free, later⟩, same⟩
        exact ⟨(), _, ⟨free, opened, rfl⟩, (next written).mpr ⟨later, same⟩⟩
    cases written with
    | nil => rw [bindParameters]; exact step start []
    | cons p others => rw [bindParameters]; exact step p.span.start others

/-- Of parameters in a row, one that is refused is the first, after those that were bound. -/
theorem bindParameters_error_cases {start : Position} {entries : List (String × Tag)}
    {written : List Parameter} {c c' : Checker} {e : Error}
    (run : (bindParameters start entries written).run c = .error e c') :
    ∃ before name tag position,
      (bindName name tag position).run (c.boundAll before) = .error e c' := by
  induction entries generalizing c written with
  | nil =>
    rw [bindParameters, Run.pure_error_iff] at run
    exact run.elim
  | cons entry rest ih =>
    obtain ⟨name, tag⟩ := entry
    have step (position : Position) (others : List Parameter)
        (run : (bindName name tag position >>= fun _ => bindParameters start rest others).run c =
          .error e c') : ∃ before name tag position,
        (bindName name tag position).run (c.boundAll before) = .error e c' := by
      obtain failed | ⟨_, m, ran, failed⟩ := (Run.bind_error_iff ..).mp run
      · exact ⟨[], name, tag, position, failed⟩
      · obtain ⟨_, _, rfl⟩ := (bindName_ok_iff ..).mp ran
        obtain ⟨before, refused⟩ := ih failed
        exact ⟨(name, tag) :: before, refused⟩
    cases written with
    | nil => rw [bindParameters] at run; exact step start [] run
    | cons p others => rw [bindParameters] at run; exact step p.span.start others run

theorem boundAll_environment {c : Checker} (opened : c.scopes.frames ≠ [])
    (entries : List (String × Tag)) :
    (c.boundAll entries).scopes.environment = c.scopes.environment.extend entries.reverse := by
  rw [boundAll_scopes, Scopes.environment_extend opened]

theorem boundAll_opened {c : Checker} (opened : c.scopes.frames ≠ [])
    (entries : List (String × Tag)) : (c.boundAll entries).scopes.frames ≠ [] := by
  rw [boundAll_scopes]
  exact Scopes.extend_opened opened _

theorem boundAll_concat (c : Checker) (entries : List (String × Tag)) (name : String) (tag : Tag) :
    c.boundAll (entries ++ [(name, tag)]) = (c.boundAll entries).bound name tag := by
  simp [Checker.boundAll]

/-- A method on record whose names are all free is as good as its body. -/
theorem method_ok_iff (m : Method) (body : Block) (c c' : Checker) (d : Derivation) :
    (method m body).run c = .ok d c' ↔
      let name := Signatures.memberName c.className m.name
      let entries := m.entries c.scopes.environment c.className
      (c.scopes.globals.parameters? name).isSome = true ∧
      c.scopes.environment.Admits entries ∧
      ∃ inner n, (block body).run (c.restarted.boundAll entries) = .ok inner n ∧
        d = .ofMethod name inner ∧ c' = n.methodDone name inner.tag := by
  have opened : c.restarted.scopes.frames ≠ [] := List.cons_ne_nil _ _
  have start : c.restarted.scopes.environment = c.scopes.environment := rfl
  unfold method
  rw [Run.bind_of_ok (run_resetNumbers c), Run.bind_of_ok (EStateM.run_get _),
    Run.bind_of_ok (EStateM.run_get _)]
  dsimp only
  cases known : c.scopes.globals.parameters? (Signatures.memberName c.className m.name) with
  | none => simp [Run.throw_ok_iff]
  | some parameters =>
    dsimp only
    rw [Run.bind_of_ok (run_pushScope _)]
    have onRecord : (c.scopes.environment.globals.parameters?
        (Signatures.memberName c.className m.name)).getD [] = parameters := by
      rw [show c.scopes.environment.globals = c.scopes.globals from rfl, known, Option.getD_some]
    have afterParameters := boundAll_environment opened parameters
    have openParameters := boundAll_opened opened parameters
    have afterThis := boundAll_environment opened (parameters ++ [("this", .reference c.className)])
    have openThis := boundAll_opened opened (parameters ++ [("this", .reference c.className)])
    rw [start] at afterParameters afterThis
    rw [boundAll_concat] at afterThis openThis
    change (bindParameters m.span.start parameters m.parameters >>= _).run c.restarted = _ ↔ _
    simp only [Method.entries, onRecord, Environment.admits_concat, boundAll_concat,
      Run.bind_ok_iff, bindParameters_ok_iff _ _ _ _ _ _ opened, bindName_ok_iff, run_typeOf, start]
    constructor
    · rintro ⟨_, _, ⟨admitted, rfl⟩, _, _, ⟨freeThis, _, rfl⟩, _, _, looked, _, _,
        ⟨freeReturn, _, rfl⟩, inner, n, ran, ended⟩
      cases looked
      obtain ⟨_, _, left, _, _, said, ended⟩ := ended
      cases left
      cases said
      cases ended
      rw [afterParameters] at freeThis
      rw [afterThis] at freeReturn ran
      exact ⟨rfl, ⟨⟨admitted, freeThis⟩, freeReturn⟩, inner, n, ran, rfl, rfl⟩
    · rintro ⟨_, ⟨⟨admitted, freeThis⟩, freeReturn⟩, inner, n, ran, rfl, rfl⟩
      rw [← afterParameters] at freeThis
      rw [← afterThis] at freeReturn ran
      exact ⟨(), _, ⟨admitted, rfl⟩, (), _, ⟨freeThis, openParameters, rfl⟩, _, _, rfl, (), _,
        ⟨freeReturn, openThis, rfl⟩, inner, n, ran, (), _, rfl, (), _, rfl, rfl⟩

/-- A method fails before its scope is opened if it is not on record, and else inside of its scope:
at a name that it binds there, or in its body. -/
theorem method_error_cases {m : Method} {body : Block} {c c' : Checker} {e : Error}
    (run : (method m body).run c = .error e c') :
    (c.scopes.globals.parameters? (Signatures.memberName c.className m.name) = none ∧
      c'.scopes = c.scopes) ∨
    ∃ before, (∃ name tag position,
        (bindName name tag position).run (c.restarted.boundAll before) = .error e c') ∨
      (block body).run (c.restarted.boundAll before) = .error e c' := by
  unfold method at run
  rw [Run.bind_of_ok (run_resetNumbers c), Run.bind_of_ok (EStateM.run_get _),
    Run.bind_of_ok (EStateM.run_get _)] at run
  dsimp only at run
  split at run
  · rename_i unknown
    cases run
    exact .inl ⟨unknown, rfl⟩
  rw [Run.bind_of_ok (run_pushScope _)] at run
  right
  obtain failed | ⟨_, _, ran, run⟩ := (Run.bind_error_iff ..).mp run
  · obtain ⟨before, refused⟩ := bindParameters_error_cases failed
    exact ⟨before, .inl refused⟩
  obtain ⟨_, rfl⟩ := (bindParameters_ok_iff _ _ _ _ _ _ (List.cons_ne_nil _ _)).mp ran
  obtain failed | ⟨_, _, ran, run⟩ := (Run.bind_error_iff ..).mp run
  · exact ⟨_, .inl ⟨_, _, _, failed⟩⟩
  obtain ⟨_, _, rfl⟩ := (bindName_ok_iff ..).mp ran
  rw [← boundAll_concat, Run.bind_of_ok (run_typeOf _ _)] at run
  obtain failed | ⟨_, _, ran, run⟩ := (Run.bind_error_iff ..).mp run
  · exact ⟨_, .inl ⟨_, _, _, failed⟩⟩
  obtain ⟨_, _, rfl⟩ := (bindName_ok_iff ..).mp ran
  rw [← boundAll_concat] at run
  obtain failed | ⟨_, _, _, ended⟩ := (Run.bind_error_iff ..).mp run
  · exact ⟨_, .inr failed⟩
  · cases ended

/-- Outside of all scopes, a method's entries make up what its body starts with. -/
theorem method_place (m : Method) {c : Checker} (closed : c.scopes.frames = []) :
    (c.restarted.boundAll (m.entries c.scopes.environment c.className)).scopes.environment =
      (m.environment c.scopes.globals c.className).extend (LocalDeclaration.allBindings []) := by
  have around := Scopes.environment_closed closed
  have start : c.restarted.scopes.environment = ⟨c.scopes.globals, []⟩ := around
  rw [boundAll_environment (List.cons_ne_nil _ _), start, around]
  rfl

/-- A method's scope is gone when it is done. -/
theorem method_scopes {m : Method} {body : Block} {c c' : Checker} {d : Derivation}
    (run : (method m body).run c = .ok d c') :
    c'.scopes = c.scopes ∧ c'.className = c.className := by
  obtain ⟨_, _, inner, n, ran, _, rfl⟩ := (method_ok_iff ..).mp run
  rw [block_eq_statement] at ran
  obtain ⟨scopes, className⟩ := statement_scopes.1 _ _ _ _ ran
  have kept : n.scopes = c.scopes.push.extend (m.entries _ _).reverse :=
    scopes.trans ((Scopes.extend_nil _).trans (boundAll_scopes ..))
  constructor
  · change n.scopes.pop = c.scopes
    rw [kept, Scopes.pop_extend_push]
  · exact className.trans (boundAll_className _ _)

theorem methods_nil_ok_iff (c c' : Checker) (parts : List Derivation) :
    (methods []).run c = .ok parts c' ↔ parts = [] ∧ c' = c := by
  rw [methods, Run.pure_ok_iff]

theorem methods_bodiless {m : Method} (bodiless : m.body = none) (rest : List Method) :
    methods (m :: rest) = methods rest := by
  rw [methods, bodiless]

theorem methods_cons_ok_iff {m : Method} {body : Block} (hasBody : m.body = some body)
    (rest : List Method) (c c' : Checker) (parts : List Derivation) :
    (methods (m :: rest)).run c = .ok parts c' ↔ ∃ part n others,
      (method m body).run c = .ok part n ∧ (methods rest).run n = .ok others c' ∧
      parts = part :: others := by
  rw [methods, hasBody]
  exact Run.cons_ok_iff ..

theorem methods_scopes {all : List Method} {c c' : Checker} {parts : List Derivation}
    (run : (methods all).run c = .ok parts c') :
    c'.scopes = c.scopes ∧ c'.className = c.className := by
  induction all generalizing c parts with
  | nil =>
    obtain ⟨_, rfl⟩ := (methods_nil_ok_iff ..).mp run
    exact ⟨rfl, rfl⟩
  | cons m rest ih =>
    cases hasBody : m.body with
    | none =>
      rw [methods_bodiless hasBody] at run
      exact ih run
    | some body =>
      obtain ⟨part, n, others, head, tail, _⟩ := (methods_cons_ok_iff hasBody ..).mp run
      obtain ⟨scopes, className⟩ := method_scopes head
      obtain ⟨scopes', className'⟩ := ih tail
      exact ⟨scopes'.trans scopes, className'.trans className⟩

theorem ofClass_ok_iff (cls : Class) (c c' : Checker) (d : Derivation) :
    (ofClass cls).run c = .ok d c' ↔ ∃ parts,
      (methods cls.methods).run { c with className := cls.name } = .ok parts c' ∧
      d = .ofParts ("class " ++ cls.name) parts := by
  unfold ofClass
  rw [Run.bind_of_ok (EStateM.run_modify _ c)]
  simp only [Run.bind_ok_iff, Run.pure_ok_iff]
  constructor
  · rintro ⟨parts, _, run, rfl, rfl⟩
    exact ⟨parts, run, rfl⟩
  · rintro ⟨parts, run, rfl⟩
    exact ⟨parts, c', run, rfl, rfl⟩

theorem classes_nil_ok_iff (c c' : Checker) (parts : List Derivation) :
    (classes []).run c = .ok parts c' ↔ parts = [] ∧ c' = c := by
  rw [classes, Run.pure_ok_iff]

theorem classes_cons_ok_iff (first : Class) (rest : List Class) (c c' : Checker)
    (parts : List Derivation) :
    (classes (first :: rest)).run c = .ok parts c' ↔ ∃ part n others,
      (ofClass first).run c = .ok part n ∧ (classes rest).run n = .ok others c' ∧
      parts = part :: others := by
  rw [classes]
  exact Run.cons_ok_iff ..

theorem unit_ok_iff (u : CompilationUnit) (c c' : Checker) (d : Derivation) :
    (unit u).run c = .ok d c' ↔ ∃ parts, (classes u.classes).run c = .ok parts c' ∧
      d = .ofParts "CompilationUnit" parts := by
  unfold unit
  simp only [Run.bind_ok_iff, Run.pure_ok_iff]
  constructor
  · rintro ⟨parts, _, run, rfl, rfl⟩
    exact ⟨parts, run, rfl⟩
  · rintro ⟨parts, run, rfl⟩
    exact ⟨parts, c', run, rfl, rfl⟩

end Check

/-- The checker that a unit's check starts with. -/
def Checker.initial (signatures : Signatures) : Checker := { scopes := { globals := signatures } }

theorem Verdict.ofUnit_eq (signatures : Signatures) (u : CompilationUnit) :
    ofUnit signatures u = match (Check.unit u).run (.initial signatures) with
      | .ok d _ => .ok ⟨d.tag.isVoid, d.tree⟩
      | .error e _ => .error e := rfl

theorem Verdict.ofUnit_ok_iff (signatures : Signatures) (u : CompilationUnit) (v : Verdict) :
    ofUnit signatures u = .ok v ↔ ∃ d c', (Check.unit u).run (.initial signatures) = .ok d c' ∧
      v = ⟨d.tag.isVoid, d.tree⟩ := by
  rw [ofUnit_eq]
  cases (Check.unit u).run (.initial signatures) with
  | ok d c' =>
    constructor
    · intro h; cases h; exact ⟨d, c', rfl, rfl⟩
    · rintro ⟨_, _, same, rfl⟩; cases same; rfl
  | error e c' => simp

theorem Verdict.ofUnit_sample : ∃ v, ofUnit .sample .sample = .ok v := by
  apply Run.exists_of_isOk
  cbv

theorem Verdict.ofUnit_error_iff (signatures : Signatures) (u : CompilationUnit) (e : Error) :
    ofUnit signatures u = .error e ↔
      ∃ c', (Check.unit u).run (.initial signatures) = .error e c' := by
  rw [ofUnit_eq]
  cases (Check.unit u).run (.initial signatures) with
  | ok d c' => simp
  | error e c' => simp

end Javelet
