import Javelet.Proofs.Checking

namespace Javelet

/-- The declaration is one of the language, and its name is free where it stands. -/
def Site.Admitted (base : Environment) (site : Site) : Prop :=
  ∃ declarator tag, site.declaration.binding? = some (declarator, tag) ∧
    (base.extend (LocalDeclaration.allBindings site.earlier)).typeOf declarator.name = .error

theorem Site.Admitted.bound {base : Environment} {site : Site} (h : site.Admitted base) :
    site.declaration.binding?.isSome = true := by
  obtain ⟨declarator, tag, known, _⟩ := h
  rw [known, Option.isSome_some]

/-- The method is on record, and every name that it or its body binds is free in its turn. -/
structure Method.Admitted (globals : Signatures) (owner : String) (m : Method) : Prop where
  known : (globals.parameters? (Signatures.memberName owner m.name)).isSome = true
  names : Environment.Admits ⟨globals, []⟩ (m.entries ⟨globals, []⟩ owner)
  sites : ∀ site ∈ m.sites, site.Admitted (m.environment globals owner)

namespace Check

theorem statement_ok_iff_admitted (base : Environment) :
    (∀ s c earlier, c.scopes.frames ≠ [] →
      c.scopes.environment = base.extend (LocalDeclaration.allBindings earlier) →
      ((∃ d c', (statement s).run c = .ok d c') ↔ ∀ site ∈ s.sites earlier, site.Admitted base)) ∧
    ∀ body c earlier, c.scopes.frames ≠ [] →
      c.scopes.environment = base.extend (LocalDeclaration.allBindings earlier) →
      ((∃ parts c', (statements body).run c = .ok parts c') ↔
        ∀ site ∈ Statement.sitesIn earlier body, site.Admitted base) := by
  apply Statement.induct
  case block =>
    intro body span inside c earlier _ place
    rw [Statement.sites, ← inside c.opened earlier (List.cons_ne_nil _ _) place]
    constructor
    · rintro ⟨d, c', run⟩
      obtain ⟨parts, m, ran, _⟩ := (block_ok_iff ..).mp run
      exact ⟨parts, m, ran⟩
    · rintro ⟨parts, m, ran⟩
      exact ⟨_, _, (block_ok_iff ..).mpr ⟨parts, m, ran, rfl, rfl⟩⟩
  case declaration =>
    intro d c earlier opened place
    rw [Statement.sites, List.forall_mem_singleton, statement, Site.Admitted, ← place]
    constructor
    · rintro ⟨r, c', run⟩
      obtain ⟨declarator, tag, bound, free, _⟩ := (localDeclaration_ok_iff ..).mp run
      exact ⟨declarator, tag, bound, free⟩
    · rintro ⟨declarator, tag, bound, free⟩
      have run := (localDeclaration_ok_iff d c _ _).mpr
        ⟨declarator, tag, bound, free, opened, rfl, rfl⟩
      exact ⟨_, _, run⟩
  case nil =>
    intro c earlier _ _
    rw [Statement.sitesIn]
    constructor
    · intro _ site member
      cases member
    · intro _
      exact ⟨[], c, (statements_nil_ok_iff ..).mpr ⟨rfl, rfl⟩⟩
  case cons =>
    intro first rest head tail c earlier opened place
    -- Both directions meet the rest in the state that the first statement leaves.
    have next (part : Derivation) (m : Checker) (ran : (statement first).run c = .ok part m) :
        (∃ parts c', (statements rest).run m = .ok parts c') ↔
          ∀ site ∈ Statement.sitesIn (first.declared ++ earlier) rest, site.Admitted base := by
      obtain ⟨openedNext, placeNext⟩ := statement_place opened place ran
      exact tail m (first.declared ++ earlier) openedNext placeNext
    rw [Statement.sitesIn, List.forall_mem_append, ← head c earlier opened place]
    constructor
    · rintro ⟨parts, c', run⟩
      obtain ⟨part, m, others, ran, ranOthers, _⟩ := (statements_cons_ok_iff ..).mp run
      exact ⟨⟨part, m, ran⟩, (next part m ran).mp ⟨others, c', ranOthers⟩⟩
    · rintro ⟨⟨part, m, ran⟩, admitted⟩
      obtain ⟨others, c', ranOthers⟩ := (next part m ran).mpr admitted
      exact ⟨_, _, (statements_cons_ok_iff ..).mpr ⟨part, m, others, ran, ranOthers, rfl⟩⟩

theorem method_ok_iff_admitted {m : Method} {body : Block} (hasBody : m.body = some body)
    {c : Checker} (closed : c.scopes.frames = []) :
    (∃ d c', (method m body).run c = .ok d c') ↔ m.Admitted c.scopes.globals c.className := by
  have around := Scopes.environment_closed closed
  have inside := (statement_ok_iff_admitted (m.environment c.scopes.globals c.className)).1
    (.ofBlock body) _ [] (boundAll_opened (List.cons_ne_nil _ _) _) (method_place m closed)
  rw [Method.sites_eq hasBody, ← block_eq_statement] at inside
  constructor
  · rintro ⟨d, c', run⟩
    obtain ⟨known, names, inner, n, ran, _⟩ := (method_ok_iff ..).mp run
    exact ⟨known, around ▸ names, inside.mp ⟨inner, n, ran⟩⟩
  · rintro ⟨known, names, sites⟩
    obtain ⟨inner, n, ran⟩ := inside.mpr sites
    exact ⟨_, _, (method_ok_iff ..).mpr ⟨known, around ▸ names, inner, n, ran, rfl, rfl⟩⟩

theorem methods_ok_iff_admitted (all : List Method) {c : Checker} (closed : c.scopes.frames = []) :
    (∃ parts c', (methods all).run c = .ok parts c') ↔
      ∀ m ∈ all, m.body.isSome = true → m.Admitted c.scopes.globals c.className := by
  induction all generalizing c with
  | nil =>
    constructor
    · intro _ m member
      cases member
    · intro _
      exact ⟨[], c, (methods_nil_ok_iff ..).mpr ⟨rfl, rfl⟩⟩
  | cons m rest ih =>
    rw [List.forall_mem_cons]
    cases hasBody : m.body with
    | none =>
      rw [methods_bodiless hasBody, ih closed]
      simp
    | some body =>
      have next (part : Derivation) (n : Checker) (ran : (method m body).run c = .ok part n) :
          (∃ parts c', (methods rest).run n = .ok parts c') ↔
            ∀ m ∈ rest, m.body.isSome = true → m.Admitted c.scopes.globals c.className := by
        obtain ⟨scopes, className⟩ := method_scopes ran
        rw [ih (scopes ▸ closed), scopes, className]
      rw [Option.isSome_some, ← method_ok_iff_admitted hasBody closed]
      constructor
      · rintro ⟨parts, c', run⟩
        obtain ⟨part, n, others, head, tail, _⟩ := (methods_cons_ok_iff hasBody ..).mp run
        exact ⟨fun _ => ⟨part, n, head⟩, (next part n head).mp ⟨others, c', tail⟩⟩
      · rintro ⟨own, admitted⟩
        obtain ⟨part, n, head⟩ := own rfl
        obtain ⟨others, c', tail⟩ := (next part n head).mpr admitted
        exact ⟨_, _, (methods_cons_ok_iff hasBody ..).mpr ⟨part, n, others, head, tail, rfl⟩⟩

theorem classes_ok_iff_admitted (all : List Class) {c : Checker} (closed : c.scopes.frames = []) :
    (∃ parts c', (classes all).run c = .ok parts c') ↔ ∀ cls ∈ all, ∀ m ∈ cls.methods,
      m.body.isSome = true → m.Admitted c.scopes.globals cls.name := by
  induction all generalizing c with
  | nil =>
    constructor
    · intro _ cls member
      cases member
    · intro _
      exact ⟨[], c, (classes_nil_ok_iff ..).mpr ⟨rfl, rfl⟩⟩
  | cons cls rest ih =>
    have own := methods_ok_iff_admitted cls.methods (c := { c with className := cls.name }) closed
    have next (parts : List Derivation) (n : Checker)
        (ran : (methods cls.methods).run { c with className := cls.name } = .ok parts n) :
        (∃ parts c', (classes rest).run n = .ok parts c') ↔ ∀ cls ∈ rest, ∀ m ∈ cls.methods,
          m.body.isSome = true → m.Admitted c.scopes.globals cls.name := by
      have scopes := (methods_scopes ran).1
      rw [ih (scopes ▸ closed), scopes]
    rw [List.forall_mem_cons, ← own]
    constructor
    · rintro ⟨parts, c', run⟩
      obtain ⟨part, n, others, head, tail, _⟩ := (classes_cons_ok_iff ..).mp run
      obtain ⟨inner, ran, _⟩ := (ofClass_ok_iff ..).mp head
      exact ⟨⟨inner, n, ran⟩, (next inner n ran).mp ⟨others, c', tail⟩⟩
    · rintro ⟨⟨inner, n, ran⟩, admitted⟩
      obtain ⟨others, c', tail⟩ := (next inner n ran).mpr admitted
      have head := (ofClass_ok_iff cls c n _).mpr ⟨inner, ran, rfl⟩
      exact ⟨_, _, (classes_cons_ok_iff ..).mpr ⟨_, n, others, head, tail, rfl⟩⟩

end Check

theorem Verdict.ofUnit_ok_iff_admitted (globals : Signatures) (u : CompilationUnit) :
    (∃ v, ofUnit globals u = .ok v) ↔ ∀ c ∈ u.classes, ∀ m ∈ c.methods,
      m.body.isSome = true → m.Admitted globals c.name := by
  have classes := Check.classes_ok_iff_admitted u.classes (c := .initial globals) rfl
  constructor
  · rintro ⟨v, h⟩
    obtain ⟨d, c', run, _⟩ := (ofUnit_ok_iff ..).mp h
    obtain ⟨parts, ran, _⟩ := (Check.unit_ok_iff ..).mp run
    exact classes.mp ⟨parts, c', ran⟩
  · intro admitted
    obtain ⟨parts, c', ran⟩ := classes.mpr admitted
    have run := (Check.unit_ok_iff u (.initial globals) c' _).mpr ⟨parts, ran, rfl⟩
    exact ⟨_, (ofUnit_ok_iff ..).mpr ⟨_, c', run, rfl⟩⟩

/-- The causes for which checking ends early: a name is taken, or a declaration is not one of the
language. -/
def Cause.OfChecking (cause : Cause) : Prop :=
  (∃ name type, cause = .variableDeclared name type) ∨
    (∃ names, cause = .severalDeclarators names) ∨ cause.OfType

/-- A missing record, a missing scope and an unknown construct are none of them. -/
theorem Cause.OfChecking.reachable {cause : Cause} (h : cause.OfChecking) (name : String) :
    cause ≠ .methodUndeclared name ∧ cause ≠ .noScope name ∧ cause ≠ .unsupported name := by
  obtain ⟨_, _, rfl⟩ | ⟨_, rfl⟩ | ⟨_, rfl | rfl | rfl⟩ := h <;> exact ⟨nofun, nofun, nofun⟩

namespace Check

theorem bindName_error {name : String} {tag : Tag} {position : Position} {c c' : Checker}
    {e : Error} (opened : c.scopes.frames ≠ [])
    (run : (bindName name tag position).run c = .error e c') :
    e.cause.OfChecking := by
  obtain ⟨taken, _⟩ := (bindName_error_iff ..).mp run
  obtain ⟨type, cause⟩ := Scopes.bind_error opened taken
  exact .inl ⟨name, type, cause⟩

theorem localDeclaration_error {d : LocalDeclaration} {c c' : Checker} {e : Error}
    (opened : c.scopes.frames ≠ []) (run : (localDeclaration d).run c = .error e c') :
    e.cause.OfChecking := by
  unfold localDeclaration at run
  -- Nothing can fail once the name is bound.
  simp only [Run.bind_error_iff, Run.ofExcept_error_iff, Run.ofExcept_ok_iff, run_typeOf,
    run_initializer, run_nextStatement, Run.pure_error_iff, reduceCtorEq, and_false, exists_false,
    or_false] at run
  obtain ⟨several, _⟩ | ⟨declarator, m, ⟨_, same⟩, rest⟩ := run
  · exact .inr (.inl (Declarator.single_error several))
  subst same
  obtain ⟨untyped, _⟩ | ⟨tag, n, ⟨_, same⟩, taken⟩ := rest
  · exact .inr (.inr (TypeExpr.resolve_error untyped))
  subst same
  exact bindName_error opened taken

theorem statement_error :
    (∀ s c c' e, c.scopes.frames ≠ [] → (statement s).run c = .error e c' → e.cause.OfChecking) ∧
    ∀ body c c' e, c.scopes.frames ≠ [] → (statements body).run c = .error e c' →
      e.cause.OfChecking := by
  apply Statement.induct
  case block =>
    intro body span inside c c' e _ run
    rw [statement, blockOf, Run.bind_of_ok (run_pushScope c), Run.bind_error_iff] at run
    obtain failed | ⟨_, _, _, ended⟩ := run
    · exact inside c.opened c' e (List.cons_ne_nil _ _) failed
    · cases ended
  case declaration =>
    intro d c c' e opened run
    rw [statement] at run
    exact localDeclaration_error opened run
  case nil =>
    intro c c' e _ run
    rw [statements, Run.pure_error_iff] at run
    exact run.elim
  case cons =>
    intro first rest head tail c c' e opened run
    rw [statements] at run
    obtain failed | ⟨part, m, ran, failed⟩ := (Run.cons_error_iff ..).mp run
    · exact head c c' e opened failed
    · have scopes := (statement_scopes.1 _ _ _ _ ran).1
      exact tail m c' e (scopes ▸ Scopes.extend_opened opened _) failed

theorem method_error {m : Method} {body : Block} {c c' : Checker} {e : Error}
    (known : (c.scopes.globals.parameters?
      (Signatures.memberName c.className m.name)).isSome = true)
    (run : (method m body).run c = .error e c') : e.cause.OfChecking := by
  have opened (before : List (String × Tag)) : (c.restarted.boundAll before).scopes.frames ≠ [] :=
    boundAll_opened (List.cons_ne_nil _ _) before
  obtain ⟨unknown, _⟩ | ⟨before, ⟨name, tag, position, refused⟩ | failed⟩ := method_error_cases run
  · rw [unknown] at known
    cases known
  · exact bindName_error (opened before) refused
  · rw [block_eq_statement] at failed
    exact statement_error.1 _ _ _ _ (opened before) failed

theorem methods_error {all : List Method} {c c' : Checker} {e : Error}
    (known : ∀ m ∈ all, (c.scopes.globals.parameters?
      (Signatures.memberName c.className m.name)).isSome = true)
    (run : (methods all).run c = .error e c') : e.cause.OfChecking := by
  induction all generalizing c with
  | nil =>
    rw [methods, Run.pure_error_iff] at run
    exact run.elim
  | cons m rest ih =>
    obtain ⟨own, others⟩ := List.forall_mem_cons.mp known
    cases hasBody : m.body with
    | none =>
      rw [methods_bodiless hasBody] at run
      exact ih others run
    | some body =>
      rw [methods, hasBody] at run
      obtain failed | ⟨part, n, ran, failed⟩ := (Run.cons_error_iff ..).mp run
      · exact method_error own failed
      · obtain ⟨scopes, className⟩ := method_scopes ran
        exact ih (by rw [scopes, className]; exact others) failed

theorem classes_error {all : List Class} {c c' : Checker} {e : Error}
    (known : ∀ cls ∈ all, ∀ m ∈ cls.methods, (c.scopes.globals.parameters?
      (Signatures.memberName cls.name m.name)).isSome = true)
    (run : (classes all).run c = .error e c') : e.cause.OfChecking := by
  induction all generalizing c with
  | nil =>
    rw [classes, Run.pure_error_iff] at run
    exact run.elim
  | cons cls rest ih =>
    obtain ⟨own, others⟩ := List.forall_mem_cons.mp known
    rw [classes] at run
    obtain failed | ⟨part, n, ran, failed⟩ := (Run.cons_error_iff ..).mp run
    · rw [ofClass, Run.bind_of_ok (EStateM.run_modify _ c), Run.bind_error_iff] at failed
      obtain failed | ⟨_, _, _, ended⟩ := failed
      · exact methods_error own failed
      · cases ended
    · obtain ⟨inner, ranMethods, _⟩ := (ofClass_ok_iff ..).mp ran
      have scopes := (methods_scopes ranMethods).1
      exact ih (by rw [scopes]; exact others) failed

end Check

/-- Given a record of every method, a unit is refused for a name or a declaration, and for nothing
else. -/
theorem Verdict.ofUnit_error {globals : Signatures} {u : CompilationUnit} {e : Error}
    (known : ∀ c ∈ u.classes, ∀ m ∈ c.methods,
      (globals.parameters? (Signatures.memberName c.name m.name)).isSome = true)
    (h : ofUnit globals u = .error e) : e.cause.OfChecking := by
  obtain ⟨c', run⟩ := (ofUnit_error_iff ..).mp h
  rw [Check.unit] at run
  obtain failed | ⟨_, _, _, ended⟩ := (Run.bind_error_iff ..).mp run
  · exact Check.classes_error known failed
  · cases ended

end Javelet
