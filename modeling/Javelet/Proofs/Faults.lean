import Javelet.Proofs.Admission

namespace Javelet

/-- What is wrong with a variable of type `left` that gets a value of type `right`. -/
def Tag.faults (left right : Tag) (value : Expression) : List String :=
  if right = .error then ["E(" ++ value.text ++ ") = ERROR", left.text ++ " := ERROR"]
  else if left.assignable right then []
  else [left.text ++ " := " ++ right.text]

/-- The faults of a declaration where `base` is what the body starts with. The value sees the
variable itself. -/
def Site.faults (base : Environment) (site : Site) : List String :=
  match site.declaration.binding? with
  | some (⟨name, some value, _⟩, tag) =>
    let env := (base.extend (LocalDeclaration.allBindings site.earlier)).bind name tag
    tag.faults (value.typeIn env) value
  | _ => []

def Method.faults (globals : Signatures) (owner : String) (m : Method) : List String :=
  m.sites.flatMap (Site.faults (m.environment globals owner))

/-- The faults of all methods of the unit's classes, in source order. -/
def CompilationUnit.faults (globals : Signatures) (u : CompilationUnit) : List String :=
  u.classes.flatMap fun c => c.methods.flatMap (Method.faults globals c.name)

namespace Derivation

theorem failing_ofParts (subject : String) (parts : List Derivation) :
    (ofParts subject parts).tree.failing = parts.flatMap (·.tree.failing) := by
  simp only [ofParts, Obligation.failing_ofChildren, List.flatMap_map]

theorem failing_lookup (name : String) (tag : Tag) :
    (lookup name tag).tree.failing =
      if tag = .error then ["E(" ++ name ++ ") = ERROR"] else [] := by
  by_cases wrong : tag = .error
  · have label : "E(" ++ name ++ ") = " ++ Tag.error.text = "E(" ++ name ++ ") = ERROR" :=
      String.append_assoc
    simp [lookup, Obligation.ofChildren, Obligation.failing, Obligation.failingIn, Tag.isError,
      wrong, label]
  · simp [lookup, Obligation.ofChildren, Obligation.failing, Obligation.failingIn, Tag.isError,
      wrong]

theorem failing_ofVariable (number : Nat) (env : Environment) (declarator : Declarator) {tag : Tag}
    (proper : tag ≠ .error) :
    (ofVariable number env declarator tag).tree.failing =
      match declarator.value with
      | none => []
      | some value => tag.faults (value.typeIn env) value := by
  have own : (lookup declarator.name tag).tree.failing = [] := by
    rw [failing_lookup, if_neg proper]
  cases present : declarator.value with
  | none => simp [ofVariable, ofValue, present, Obligation.failing_ofChildren, own]
  | some value =>
    by_cases wrong : value.typeIn env = .error
    · have label : tag.text ++ " := " ++ Tag.error.text = tag.text ++ " := ERROR" :=
        String.append_assoc
      have unfit : tag.assignable .error = false := by simp [Tag.assignable, Tag.isError]
      simp [ofVariable, ofValue, present, Obligation.failing_ofChildren, own, failing_lookup, wrong,
        Tag.faults, unfit, Obligation.failing, label]
    · simp [ofVariable, ofValue, present, Obligation.failing_ofChildren, own, failing_lookup, wrong,
        Tag.faults, Obligation.failing]

end Derivation

/-- Scopes that stand for the place of a statement lead to the faults of its declarations, and to no
other failing leaf. -/
theorem Check.statement_faults (base : Environment) :
    (∀ s c c' d earlier, c.scopes.frames ≠ [] →
      c.scopes.environment = base.extend (LocalDeclaration.allBindings earlier) →
      (statement s).run c = .ok d c' →
      d.tree.failing = (s.sites earlier).flatMap (Site.faults base)) ∧
    ∀ body c c' parts earlier, c.scopes.frames ≠ [] →
      c.scopes.environment = base.extend (LocalDeclaration.allBindings earlier) →
      (statements body).run c = .ok parts c' →
      parts.flatMap (·.tree.failing) =
        (Statement.sitesIn earlier body).flatMap (Site.faults base) := by
  apply Statement.induct
  case block =>
    intro body span inside c c' d earlier _ place run
    obtain ⟨parts, m, ran, rfl, rfl⟩ := (block_ok_iff ..).mp run
    rw [Derivation.failing_ofParts, Statement.sites]
    exact inside c.opened m parts earlier (List.cons_ne_nil _ _) place ran
  case declaration =>
    intro d c c' r earlier _ place run
    rw [statement] at run
    obtain ⟨declarator, tag, bound, _, _, rfl, _⟩ := (localDeclaration_ok_iff ..).mp run
    have typed := ((Declarator.typed?_eq_some_iff ..).mp bound).2
    rw [Derivation.failing_ofVariable _ _ _ (TypeShape.tag?_proper typed).1, Statement.sites, place]
    obtain ⟨name, value, span⟩ := declarator
    cases value with
    | none => simp [Site.faults, bound]
    | some value => simp [Site.faults, bound]
  case nil =>
    intro c c' parts earlier _ _ run
    obtain ⟨rfl, _⟩ := (statements_nil_ok_iff ..).mp run
    rw [Statement.sitesIn]
    rfl
  case cons =>
    intro first rest head tail c c' parts earlier opened place run
    obtain ⟨part, m, others, ran, ranOthers, rfl⟩ := (statements_cons_ok_iff ..).mp run
    obtain ⟨openedNext, placeNext⟩ := statement_place opened place ran
    rw [List.flatMap_cons, Statement.sitesIn, List.flatMap_append,
      head c m part earlier opened place ran, tail m c' others _ openedNext placeNext ranOthers]

theorem Check.method_faults {m : Method} {body : Block} (hasBody : m.body = some body)
    {c c' : Checker} {d : Derivation} (closed : c.scopes.frames = [])
    (run : (method m body).run c = .ok d c') :
    d.tree.failing = m.faults c.scopes.globals c.className := by
  obtain ⟨_, _, inner, n, ran, rfl, _⟩ := (method_ok_iff ..).mp run
  have place := method_place m closed
  rw [block_eq_statement] at ran
  have inside := (statement_faults (m.environment c.scopes.globals c.className)).1 _ _ _ _ []
    (boundAll_opened (List.cons_ne_nil _ _) _) place ran
  rw [Method.faults, ← Method.sites_eq hasBody, ← inside, Derivation.ofMethod,
    Obligation.failing_ofChildren, List.flatMap_singleton]

theorem Check.methods_faults {all : List Method} {c c' : Checker} {parts : List Derivation}
    (closed : c.scopes.frames = []) (run : (methods all).run c = .ok parts c') :
    parts.flatMap (·.tree.failing) = all.flatMap (Method.faults c.scopes.globals c.className) := by
  induction all generalizing c parts with
  | nil =>
    obtain ⟨rfl, _⟩ := (methods_nil_ok_iff ..).mp run
    rfl
  | cons m rest ih =>
    cases hasBody : m.body with
    | none =>
      rw [methods_bodiless hasBody] at run
      have none : m.faults c.scopes.globals c.className = [] := by
        rw [Method.faults, Method.sites, hasBody]
        rfl
      rw [List.flatMap_cons, none, ih closed run, List.nil_append]
    | some body =>
      obtain ⟨part, n, others, head, tail, rfl⟩ := (methods_cons_ok_iff hasBody ..).mp run
      obtain ⟨scopes, className⟩ := method_scopes head
      have later := ih (scopes ▸ closed) tail
      rw [scopes, className] at later
      rw [List.flatMap_cons, List.flatMap_cons, method_faults hasBody closed head, later]

theorem Check.classes_faults {all : List Class} {c c' : Checker} {parts : List Derivation}
    (closed : c.scopes.frames = []) (run : (classes all).run c = .ok parts c') :
    parts.flatMap (·.tree.failing) =
      all.flatMap fun cls => cls.methods.flatMap (Method.faults c.scopes.globals cls.name) := by
  induction all generalizing c parts with
  | nil =>
    obtain ⟨rfl, _⟩ := (classes_nil_ok_iff ..).mp run
    rfl
  | cons cls rest ih =>
    obtain ⟨part, n, others, head, tail, rfl⟩ := (classes_cons_ok_iff ..).mp run
    obtain ⟨inner, ran, rfl⟩ := (ofClass_ok_iff ..).mp head
    have scopes := (methods_scopes ran).1
    have later := ih (scopes ▸ closed) tail
    rw [scopes] at later
    have here := methods_faults (c := { c with className := cls.name }) closed ran
    rw [List.flatMap_cons, List.flatMap_cons, Derivation.failing_ofParts, here, later]

theorem Verdict.failing_eq {globals : Signatures} {u : CompilationUnit} {v : Verdict}
    (h : ofUnit globals u = .ok v) : v.root.failing = u.faults globals := by
  obtain ⟨d, c', run, rfl⟩ := (ofUnit_ok_iff ..).mp h
  obtain ⟨parts, ran, rfl⟩ := (Check.unit_ok_iff ..).mp run
  have failing := Check.classes_faults (c := .initial globals) rfl ran
  rw [CompilationUnit.faults, Derivation.failing_ofParts, failing]
  rfl

/-- The leaves that fail are the faults of the local declarations of the unit's own methods, each of
which declares one variable of a type of the language. A value fits if it has the variable's type or
is null for a class. -/
theorem failing_exact {globals : Signatures} {u : CompilationUnit} {v : Verdict}
    (h : Verdict.ofUnit globals u = .ok v) :
    v.root.failing = u.faults globals ∧
    (∀ c ∈ u.classes, ∀ m ∈ c.methods, ∀ site ∈ m.sites, ∃ declarator tag,
      site.declaration.declarators = [declarator] ∧
      site.declaration.type.shape.tag? = some tag) ∧
    ∀ left right : Tag, left.assignable right = true ↔
      (left = .int ∨ left = .boolean ∨ ∃ name, left = .reference name) ∧
      (right = left ∨ right = .null ∧ ∃ name, left = .reference name) := by
  refine ⟨Verdict.failing_eq h, ?_, Tag.assignable_iff⟩
  intro c own m member site place
  have admitted := (Verdict.ofUnit_ok_iff_admitted globals u).mp ⟨v, h⟩
  have fits := admitted c own m member (Method.hasBody_of_site place)
  obtain ⟨declarator, tag, bound, _⟩ := fits.sites site place
  exact ⟨declarator, tag, (Declarator.typed?_eq_some_iff ..).mp bound⟩

theorem failing_sample : ∃ v, Verdict.ofUnit .sample .sample = .ok v ∧
    v.root.failing = ["boolean := nullType", "E(z) = ERROR", "boolean := ERROR"] := by
  obtain ⟨v, h⟩ := Verdict.ofUnit_sample
  refine ⟨v, h, ?_⟩
  rw [(failing_exact h).1]
  decide +kernel

/-- `return` need not have the type that the method has on record: a parameter of the method's full
name is nearer. And a method of a nested class has no part in the tree, whatever its faults. -/
theorem failing_beyond_record :
    (let globals : Signatures := ⟨[], [("C.m", [("C.m", .int)])]⟩
    let m := Method.procedure "m" [] [.declare (.primitive .int) "x" (.name "return" .unknown)]
    let recorded : Environment := ⟨globals, [("return", (globals.type? "C.m").getD .error),
      ("this", .reference "C"), ("C.m", .int)]⟩
    ∃ v, Verdict.ofUnit globals ⟨none, [], [⟨"C", [], [], [m], [], .unknown⟩], .unknown⟩ = .ok v ∧
      v.root.failing = [] ∧
      m.sites.flatMap (Site.faults recorded) = ["E(return) = ERROR", "int := ERROR"]) ∧
    let globals : Signatures := ⟨[("D.m", .void)], [("D.m", [])]⟩
    let m := Method.procedure "m" [] [.declare (.primitive .int) "x" (.boolean true .unknown)]
    let inner : Class := ⟨"D", [], [], [m], [], .unknown⟩
    ∃ v, Verdict.ofUnit globals ⟨none, [], [⟨"C", [], [], [], [inner], .unknown⟩], .unknown⟩ =
        .ok v ∧
      v.root.failing = [] ∧ m.faults globals "D" = ["int := boolean"] := by
  constructor
  · intro globals m recorded
    obtain ⟨v, h⟩ : ∃ v, Verdict.ofUnit globals ⟨none, [], [⟨"C", [], [], [m], [], .unknown⟩],
        .unknown⟩ = .ok v := Run.exists_of_isOk (by cbv)
    refine ⟨v, h, ?_, by decide +kernel⟩
    rw [Verdict.failing_eq h]
    decide +kernel
  · intro globals m inner
    obtain ⟨v, h⟩ : ∃ v, Verdict.ofUnit globals ⟨none, [], [⟨"C", [], [], [], [inner], .unknown⟩],
        .unknown⟩ = .ok v := Run.exists_of_isOk (by cbv)
    refine ⟨v, h, ?_, by decide +kernel⟩
    rw [Verdict.failing_eq h]
    decide +kernel

end Javelet
