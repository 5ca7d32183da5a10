import Javelet.Proofs.Checking

/-! Scopes are opened and closed in pairs. A check that ends well leaves the chain as it was; one
that fails leaves open what it had opened, on top of a chain that is otherwise as it was. -/
namespace Javelet

/-- The scopes of the first chain are all open in the second, as they were and at the same depth. -/
def Scopes.Within (outer inner : Scopes) : Prop :=
  inner.globals = outer.globals ∧ outer.frames <:+ inner.frames

namespace Scopes

theorem Within.refl (scopes : Scopes) : scopes.Within scopes := ⟨rfl, List.suffix_refl _⟩

theorem Within.trans {a b c : Scopes} (first : a.Within b) (second : b.Within c) : a.Within c :=
  ⟨second.1.trans first.1, first.2.trans second.2⟩

theorem pop_within (scopes : Scopes) : scopes.pop.Within scopes :=
  ⟨rfl, List.tail_suffix _⟩

/-- What is bound goes to the innermost scope, which closing removes. -/
theorem pop_extend (scopes : Scopes) (bindings : List (String × Tag)) :
    (scopes.extend bindings).pop = scopes.pop := by
  unfold extend
  split
  · rfl
  · rename_i frame outer here
    simp [pop, here]

end Scopes

namespace Check

/-- A failed declaration changes nothing: only what comes before its name is bound can fail. -/
theorem localDeclaration_error_state {d : LocalDeclaration} {c c' : Checker} {e : Error}
    (run : (localDeclaration d).run c = .error e c') : c' = c := by
  unfold localDeclaration at run
  simp only [Run.bind_error_iff, Run.ofExcept_error_iff, Run.ofExcept_ok_iff, run_typeOf,
    run_initializer, run_nextStatement, Run.pure_error_iff, reduceCtorEq, and_false, exists_false,
    or_false] at run
  obtain ⟨_, same⟩ | ⟨_, _, ⟨_, rfl⟩, rest⟩ := run
  · exact same
  obtain ⟨_, same⟩ | ⟨_, _, ⟨_, rfl⟩, refused⟩ := rest
  · exact same
  · exact ((bindName_error_iff ..).mp refused).2

theorem localDeclaration_scopes {d : LocalDeclaration} {c c' : Checker} {r : Derivation}
    (run : (localDeclaration d).run c = .ok r c') :
    ∃ declarator tag frame outer, d.declarators = [declarator] ∧ d.type.resolve false = .ok tag ∧
      c.scopes.typeOf declarator.name = .error ∧ c.scopes.frames = frame :: outer ∧
      c'.scopes = { c.scopes with frames := ((declarator.name, tag) :: frame) :: outer } := by
  obtain ⟨declarator, tag, bound, free, opened, rfl, rfl⟩ := (localDeclaration_ok_iff ..).mp run
  obtain ⟨single, typed⟩ := (Declarator.typed?_eq_some_iff ..).mp bound
  obtain ⟨frame, outer, here⟩ := List.exists_cons_of_ne_nil opened
  refine ⟨declarator, tag, frame, outer, single, (TypeExpr.resolve_value_ok_iff ..).mpr typed,
    ?_, here, ?_⟩
  · rw [← Scopes.environment_typeOf]
    exact free
  · change c.scopes.extend [(declarator.name, tag)] = _
    simp [Scopes.extend, here]

/-- Statements in a row may have bound names before one of them fails, but in the innermost scope
only. A single statement has not. -/
theorem statement_error_within :
    (∀ s c c' e, (statement s).run c = .error e c' → c.scopes.Within c'.scopes) ∧
    ∀ body c c' e, (statements body).run c = .error e c' → c.scopes.pop.Within c'.scopes := by
  apply Statement.induct
  case block =>
    intro body span inside c c' e run
    rw [statement, blockOf, Run.bind_of_ok (run_pushScope c)] at run
    obtain failed | ⟨_, _, _, ended⟩ := (Run.bind_error_iff ..).mp run
    · exact inside c.opened c' e failed
    · cases ended
  case declaration =>
    intro d c c' e run
    rw [statement] at run
    rw [localDeclaration_error_state run]
    exact .refl _
  case nil =>
    intro c c' e run
    rw [statements, Run.pure_error_iff] at run
    exact run.elim
  case cons =>
    intro first rest head tail c c' e run
    rw [statements] at run
    obtain failed | ⟨part, m, ran, failed⟩ := (Run.cons_error_iff ..).mp run
    · exact c.scopes.pop_within.trans (head c c' e failed)
    · have scopes := (statement_scopes.1 _ _ _ _ ran).1
      have kept := tail m c' e failed
      rw [scopes, Scopes.pop_extend] at kept
      exact kept

theorem block_scopes {b : Block} {c c' : Checker} {d : Derivation}
    (run : (block b).run c = .ok d c') : c'.scopes = c.scopes := by
  rw [block_eq_statement] at run
  have scopes := (statement_scopes.1 _ _ _ _ run).1
  exact scopes.trans (Scopes.extend_nil _)

theorem method_error_within {m : Method} {body : Block} {c c' : Checker} {e : Error}
    (run : (method m body).run c = .error e c') : c.scopes.Within c'.scopes := by
  -- Once the method's scope is open, the chain before is the one without it.
  have inside (before : List (String × Tag)) :
      c.scopes.Within (c.restarted.boundAll before).scopes := by
    have outer : (c.restarted.boundAll before).scopes.pop = c.scopes := by
      rw [boundAll_scopes]
      exact Scopes.pop_extend_push ..
    have kept := (c.restarted.boundAll before).scopes.pop_within
    rw [outer] at kept
    exact kept
  obtain ⟨_, same⟩ | ⟨before, ⟨name, tag, position, refused⟩ | failed⟩ := method_error_cases run
  · rw [same]
    exact .refl _
  · rw [((bindName_error_iff ..).mp refused).2]
    exact inside before
  · rw [block_eq_statement] at failed
    exact (inside before).trans (statement_error_within.1 _ _ _ _ failed)

theorem methods_error_within {all : List Method} {c c' : Checker} {e : Error}
    (run : (methods all).run c = .error e c') : c.scopes.Within c'.scopes := by
  induction all generalizing c with
  | nil =>
    rw [methods, Run.pure_error_iff] at run
    exact run.elim
  | cons m rest ih =>
    cases hasBody : m.body with
    | none =>
      rw [methods_bodiless hasBody] at run
      exact ih run
    | some body =>
      rw [methods, hasBody] at run
      obtain failed | ⟨part, n, ran, failed⟩ := (Run.cons_error_iff ..).mp run
      · exact method_error_within failed
      · rw [← (method_scopes ran).1]
        exact ih failed

theorem ofClass_scopes {cls : Class} {c c' : Checker} {d : Derivation}
    (run : (ofClass cls).run c = .ok d c') : c'.scopes = c.scopes := by
  obtain ⟨parts, ran, _⟩ := (ofClass_ok_iff ..).mp run
  exact (methods_scopes ran).1

theorem ofClass_error_within {cls : Class} {c c' : Checker} {e : Error}
    (run : (ofClass cls).run c = .error e c') : c.scopes.Within c'.scopes := by
  rw [ofClass, Run.bind_of_ok (EStateM.run_modify _ c)] at run
  obtain failed | ⟨_, _, _, ended⟩ := (Run.bind_error_iff ..).mp run
  · have kept := methods_error_within failed
    exact kept
  · cases ended

theorem classes_scopes {all : List Class} {c c' : Checker} {parts : List Derivation}
    (run : (classes all).run c = .ok parts c') : c'.scopes = c.scopes := by
  induction all generalizing c parts with
  | nil =>
    obtain ⟨_, rfl⟩ := (classes_nil_ok_iff ..).mp run
    rfl
  | cons cls rest ih =>
    obtain ⟨part, n, others, head, tail, _⟩ := (classes_cons_ok_iff ..).mp run
    exact (ih tail).trans (ofClass_scopes head)

theorem classes_error_within {all : List Class} {c c' : Checker} {e : Error}
    (run : (classes all).run c = .error e c') : c.scopes.Within c'.scopes := by
  induction all generalizing c with
  | nil =>
    rw [classes, Run.pure_error_iff] at run
    exact run.elim
  | cons cls rest ih =>
    rw [classes] at run
    obtain failed | ⟨part, n, ran, failed⟩ := (Run.cons_error_iff ..).mp run
    · exact ofClass_error_within failed
    · rw [← ofClass_scopes ran]
      exact ih failed

/-- A check after which the chain of scopes is as before, or has more scopes open on top of it when
the check failed. -/
structure Balanced (check : Check Derivation) : Prop where
  restores : ∀ c d c', check.run c = .ok d c' → c'.scopes = c.scopes
  retains : ∀ c e c', check.run c = .error e c' → c.scopes.Within c'.scopes

theorem block_balanced (b : Block) : Balanced (block b) where
  restores _ _ _ run := block_scopes run
  retains _ _ _ run := by
    rw [block_eq_statement] at run
    exact statement_error_within.1 _ _ _ _ run

theorem method_balanced (m : Method) (body : Block) : Balanced (method m body) where
  restores _ _ _ run := (method_scopes run).1
  retains _ _ _ run := method_error_within run

theorem ofClass_balanced (cls : Class) : Balanced (ofClass cls) where
  restores _ _ _ run := ofClass_scopes run
  retains _ _ _ run := ofClass_error_within run

theorem unit_balanced (u : CompilationUnit) : Balanced (unit u) where
  restores _ _ _ run := by
    obtain ⟨parts, ran, _⟩ := (unit_ok_iff ..).mp run
    exact classes_scopes ran
  retains _ _ _ run := by
    obtain failed | ⟨_, _, _, ended⟩ := (Run.bind_error_iff ..).mp run
    · exact classes_error_within failed
    · cases ended

end Check

open Check

/-- Whatever scopes are open: a block, a method, a class and a unit restore them, a declaration adds
its name to the innermost one, and where a check fails all that were open still are. A declaration
that fails has not even counted. -/
theorem scopes_disciplined :
    (∀ b, Balanced (block b)) ∧ (∀ m body, Balanced (method m body)) ∧
    (∀ cls, Balanced (ofClass cls)) ∧ (∀ u, Balanced (unit u)) ∧
    (∀ s c e c', (statement s).run c = .error e c' → c.scopes.Within c'.scopes) ∧
    (∀ d c r c', (localDeclaration d).run c = .ok r c' → ∃ declarator tag frame outer,
      d.declarators = [declarator] ∧ d.type.resolve false = .ok tag ∧
      c.scopes.typeOf declarator.name = .error ∧ c.scopes.frames = frame :: outer ∧
      c'.scopes = { c.scopes with frames := ((declarator.name, tag) :: frame) :: outer }) ∧
    ∀ d c e c', (localDeclaration d).run c = .error e c' →
      c'.scopes = c.scopes ∧ c'.statements = c.statements := by
  refine ⟨block_balanced, method_balanced, ofClass_balanced, unit_balanced, ?_, ?_, ?_⟩
  · intro s c e c' run
    exact statement_error_within.1 s c c' e run
  · intro d c r c' run
    exact localDeclaration_scopes run
  · intro d c e c' run
    rw [localDeclaration_error_state run]
    exact ⟨rfl, rfl⟩

/-- Two blocks around a declaration that is refused stay open, above the scope that was open before.
-/
theorem scopes_disciplined_sample :
    let declared := Statement.declare (.primitive .int) "x" (.name "p" .unknown)
    let body : Block := ⟨[declared, .block [declared] .unknown], .unknown⟩
    let c : Checker := { scopes := ⟨.mk [] [], [[("p", .int)]]⟩ }
    ∃ e c', (block body).run c = .error e c' ∧
      c'.scopes.frames = [[], [("x", .int)], [("p", .int)]] ∧ c.scopes.Within c'.scopes := by
  intro declared body c
  obtain ⟨e, c', failed, frames⟩ : ∃ e c', (block body).run c = .error e c' ∧
      c'.scopes.frames = [[], [("x", .int)], [("p", .int)]] := ⟨_, _, rfl, rfl⟩
  exact ⟨e, c', failed, frames, (scopes_disciplined.1 body).retains c e c' failed⟩

end Javelet
