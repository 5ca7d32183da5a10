import Javelet.Proofs.Admission
import Javelet.Proofs.Members

namespace Javelet

/-- The names a method binds before its body. -/
def Method.boundNames (m : Method) : List String :=
  m.parameters.map (·.name) ++ ["this", "return"]

/-- A declaration of one variable, of a type of the language, whose name is new: it is no member,
not bound by the method, and not declared before it in its own block or one around it. -/
def Site.Fits (s : Signatures) (m : Method) (site : Site) : Prop :=
  ∃ declarator, site.declaration.declarators = [declarator] ∧
    site.declaration.type.shape.tag?.isSome = true ∧
    declarator.name ∉ s.keys ∧ declarator.name ∉ m.boundNames ∧
    ∀ d ∈ site.earlier, declarator.name ∉ d.declarators.map (·.name)

theorem Site.Fits.bound {s : Signatures} {m : Method} {site : Site} (h : site.Fits s m) :
    site.declaration.binding?.isSome = true := by
  obtain ⟨declarator, single, typed, _⟩ := h
  obtain ⟨tag, hasTag⟩ := Option.isSome_iff_exists.mp typed
  have known := (Declarator.typed?_eq_some_iff ..).mpr ⟨single, hasTag⟩
  rw [LocalDeclaration.binding?, known, Option.isSome_some]

structure Method.Fits (s : Signatures) (m : Method) : Prop where
  distinct : m.boundNames.Nodup
  undeclared : ∀ name ∈ m.boundNames, name ∉ s.keys
  sites : ∀ site ∈ m.sites, site.Fits s m

/-- What is in scope at a place was itself declared at a place before. -/
theorem Statement.earlier_declared :
    (∀ s : Statement, ∀ earlier, ∀ site ∈ s.sites earlier, ∀ d ∈ site.earlier,
      d ∈ earlier ∨ ∃ other ∈ s.sites earlier, other.declaration = d) ∧
    ∀ body earlier, ∀ site ∈ sitesIn earlier body, ∀ d ∈ site.earlier,
      d ∈ earlier ∨ ∃ other ∈ sitesIn earlier body, other.declaration = d := by
  apply Statement.induct
  case block =>
    intro body span inside earlier
    rw [sites]
    exact inside earlier
  case declaration =>
    intro d earlier site member other before
    rw [sites, List.mem_singleton] at member
    subst member
    exact .inl before
  case nil =>
    intro earlier site member
    rw [sitesIn] at member
    cases member
  case cons =>
    intro first rest head tail earlier site member d before
    simp only [sitesIn, List.mem_append] at member ⊢
    obtain here | there := member
    · obtain outer | ⟨other, place, same⟩ := head earlier site here d before
      · exact .inl outer
      · exact .inr ⟨other, .inl place, same⟩
    · obtain outer | ⟨other, place, same⟩ := tail _ site there d before
      · obtain own | outer := List.mem_append.mp outer
        · cases first with
          | block body span => cases own
          | declaration declared =>
            obtain rfl := List.mem_singleton.mp own
            exact .inr ⟨⟨earlier, d⟩, .inl (by rw [sites]; exact List.mem_singleton_self _), rfl⟩
        · exact .inl outer
      · exact .inr ⟨other, .inr place, same⟩

theorem Method.earlier_declared {m : Method} {site : Site} (member : site ∈ m.sites)
    {d : LocalDeclaration} (before : d ∈ site.earlier) :
    ∃ other ∈ m.sites, other.declaration = d := by
  unfold sites at member ⊢
  split at member
  · obtain outer | found := Statement.earlier_declared.2 _ _ site member d before
    · cases outer
    · exact found
  · cases member

/-- If every declaration of a body is one of the language, so are those before a given place. -/
theorem Method.earlier_bound {m : Method}
    (all : ∀ other ∈ m.sites, other.declaration.binding?.isSome = true) {site : Site}
    (place : site ∈ m.sites) : ∀ d ∈ site.earlier, d.binding?.isSome = true := by
  intro d before
  obtain ⟨other, there, rfl⟩ := Method.earlier_declared place before
  exact all other there

/-- Declarations of the language bind the names that are written in them. -/
theorem LocalDeclaration.names_allBindings {declarations : List LocalDeclaration}
    (bound : ∀ d ∈ declarations, d.binding?.isSome = true) :
    (allBindings declarations).map Prod.fst =
      declarations.flatMap fun d => d.declarators.map (·.name) := by
  rw [allBindings, List.map_flatMap]
  apply List.flatMap_congr
  intro d member
  obtain ⟨⟨declarator, tag⟩, known⟩ := Option.isSome_iff_exists.mp (bound d member)
  have single := ((Declarator.typed?_eq_some_iff ..).mp known).1
  simp [bindings, known, single]

theorem Class.globals_proper {c : Class} (supported : c.Supported) :
    Environment.Proper ⟨c.signatures, []⟩ := by
  refine ⟨by simp, ?_⟩
  intro entry member
  exact ((recorded supported).proper entry member).1

section
variable {c : Class} (supported : c.Supported) {m : Method} (member : m ∈ c.methods)
include supported member

theorem Class.parameters_of_method :
    c.signatures.parameters? (Signatures.memberName c.name m.name) =
      some (Parameter.tags m.parameters) := by
  have typed := (supported.methods m member).parameters
  exact ((recorded supported).parameters _ _).mpr
    ⟨m, member, rfl, (Parameter.tags_eq_iff typed _).mp rfl⟩

/-- The entries of a method of the class: its parameters as written, `this`, and `return`. -/
theorem Class.names_entries :
    (m.entries ⟨c.signatures, []⟩ c.name).map Prod.fst = m.boundNames := by
  have typed := (supported.methods m member).parameters
  simp [Method.entries, parameters_of_method supported member, Parameter.names_tags typed,
    Method.boundNames]

/-- None of them is an error: in particular the method's own name is always visible. -/
theorem Class.entries_proper :
    ∀ entry ∈ m.entries ⟨c.signatures, []⟩ c.name, entry.2 ≠ .error := by
  have record := recorded supported
  have around := globals_proper supported
  let first := Parameter.tags m.parameters ++ [("this", Tag.reference c.name)]
  have firstProper : ∀ entry ∈ first, entry.2 ≠ .error := by
    intro entry h
    obtain parameter | this := List.mem_append.mp h
    · have onRecord := Bindings.mem_of_lookup (parameters_of_method supported member)
      exact (record.properParameters _ onRecord entry parameter).1
    · rw [List.mem_singleton.mp this]
      exact nofun
  have visible : (Environment.extend ⟨c.signatures, []⟩ first.reverse).typeOf
      (Signatures.memberName c.name m.name) ≠ .error := by
    rw [ne_eq, Environment.typeOf_eq_error_iff (around.extend (by simpa using firstProper))]
    rintro ⟨_, undeclared⟩
    apply undeclared
    change _ ∈ c.signatures.keys
    rw [record.keys]
    exact List.mem_map_of_mem (List.mem_append_right _ (List.mem_map_of_mem member))
  intro entry h
  simp only [Method.entries, parameters_of_method supported member, Option.getD_some] at h
  obtain old | last := List.mem_append.mp h
  · exact firstProper entry old
  · rw [List.mem_singleton.mp last]
    exact visible

theorem Class.environment_proper : (m.environment c.signatures c.name).Proper := by
  apply (globals_proper supported).extend
  simpa using entries_proper supported member

theorem Class.admits_entries_iff :
    Environment.Admits ⟨c.signatures, []⟩ (m.entries ⟨c.signatures, []⟩ c.name) ↔
      m.boundNames.Nodup ∧ ∀ name ∈ m.boundNames, name ∉ c.signatures.keys := by
  rw [Environment.admits_iff (globals_proper supported) (entries_proper supported member),
    names_entries supported member]
  simp [Signatures.keys]

/-- After declarations of the language, a name is free exactly if it is new. -/
theorem Class.site_admitted_iff {site : Site}
    (bound : ∀ d ∈ site.earlier, d.binding?.isSome = true) :
    site.Admitted (m.environment c.signatures c.name) ↔ site.Fits c.signatures m := by
  have proper := (environment_proper supported member).extend
    (LocalDeclaration.allBindings_proper site.earlier)
  have names : (m.environment c.signatures c.name).bindings.map Prod.fst =
      m.boundNames.reverse := by
    rw [← names_entries supported member]
    simp [Method.environment, Environment.extend]
  have free (name : String) :
      ((m.environment c.signatures c.name).extend
        (LocalDeclaration.allBindings site.earlier)).typeOf name = .error ↔
      name ∉ c.signatures.keys ∧ name ∉ m.boundNames ∧
        ∀ d ∈ site.earlier, name ∉ d.declarators.map (·.name) := by
    rw [Environment.typeOf_eq_error_iff proper]
    simp only [Environment.extend, List.map_append, names, List.mem_append, List.mem_reverse,
      LocalDeclaration.names_allBindings bound, List.mem_flatMap, not_or, not_exists, not_and]
    constructor
    · rintro ⟨⟨earlier, own⟩, undeclared⟩
      exact ⟨undeclared, own, earlier⟩
    · rintro ⟨undeclared, own, earlier⟩
      exact ⟨⟨earlier, own⟩, undeclared⟩
  constructor
  · rintro ⟨declarator, tag, known, unseen⟩
    obtain ⟨single, typed⟩ := (Declarator.typed?_eq_some_iff ..).mp known
    exact ⟨declarator, single, by simp [typed], (free _).mp unseen⟩
  · rintro ⟨declarator, single, typed, new⟩
    obtain ⟨tag, hasTag⟩ := Option.isSome_iff_exists.mp typed
    exact ⟨declarator, tag, (Declarator.typed?_eq_some_iff ..).mpr ⟨single, hasTag⟩,
      (free _).mpr new⟩

theorem Class.admitted_iff_fits : m.Admitted c.signatures c.name ↔ m.Fits c.signatures := by
  constructor
  · rintro ⟨_, names, sites⟩
    obtain ⟨distinct, undeclared⟩ := (admits_entries_iff supported member).mp names
    refine ⟨distinct, undeclared, ?_⟩
    intro site place
    have earlier := Method.earlier_bound (fun other there => (sites other there).bound) place
    exact (site_admitted_iff supported member earlier).mp (sites site place)
  · rintro ⟨distinct, undeclared, sites⟩
    have known := parameters_of_method supported member
    refine ⟨by rw [known, Option.isSome_some],
      (admits_entries_iff supported member).mpr ⟨distinct, undeclared⟩, ?_⟩
    intro site place
    have earlier := Method.earlier_bound (fun other there => (sites other there).bound) place
    exact (site_admitted_iff supported member earlier).mpr (sites site place)

end

/-- Against its own record a unit is checked to the end exactly if every name in its bodies is new
where it is bound, and only a taken name or a declaration outside of the language can end it before.
-/
theorem checking_exact {u : CompilationUnit} {s : Signatures} (h : Signatures.ofUnit u = .ok s) :
    ((∃ v, Verdict.ofUnit s u = .ok v) ↔
      ∀ c ∈ u.classes, ∀ m ∈ c.methods, m.body.isSome = true → m.Fits s) ∧
    ∀ e, Verdict.ofUnit s u = .error e → e.cause.OfChecking ∧ ∀ name,
      e.cause ≠ .methodUndeclared name ∧ e.cause ≠ .noScope name ∧ e.cause ≠ .unsupported name := by
  constructor
  · rw [Verdict.ofUnit_ok_iff_admitted]
    constructor
    · intro admitted c own m member hasBody
      obtain ⟨supported, rfl⟩ := Signatures.ofUnit_class h own
      exact (Class.admitted_iff_fits supported member).mp (admitted c own m member hasBody)
    · intro fits c own m member hasBody
      obtain ⟨supported, rfl⟩ := Signatures.ofUnit_class h own
      exact (Class.admitted_iff_fits supported member).mpr (fits c own m member hasBody)
  · intro e failed
    have known : ∀ c ∈ u.classes, ∀ m ∈ c.methods,
        (s.parameters? (Signatures.memberName c.name m.name)).isSome = true := by
      intro c own m member
      obtain ⟨supported, rfl⟩ := Signatures.ofUnit_class h own
      rw [Class.parameters_of_method supported member, Option.isSome_some]
    have cause := Verdict.ofUnit_error known failed
    exact ⟨cause, cause.reachable⟩

/-- The sample goes through. A block that declares a variable of the block around it does not. -/
theorem checking_exact_sample :
    (Signatures.ofUnit .sample = .ok .sample ∧
      ∃ c m, CompilationUnit.sample.classes = [c] ∧ c.methods = [m] ∧ m.Fits .sample) ∧
    let declared := Statement.declare (.primitive .boolean) "x" (.boolean true .unknown)
    let m := Method.procedure "m" [] [declared, .block [declared] .unknown]
    let u : CompilationUnit := ⟨none, [], [⟨"C", [], [], [m], [], .unknown⟩], .unknown⟩
    ∃ s e, Signatures.ofUnit u = .ok s ∧ Verdict.ofUnit s u = .error e ∧ e.cause.OfChecking := by
  constructor
  · have fits := (checking_exact rfl).1.mp Verdict.ofUnit_sample
    refine ⟨rfl, _, _, rfl, rfl, ?_⟩
    exact fits _ (List.mem_singleton_self _) _ (List.mem_singleton_self _) rfl
  · intro declared m u
    have collected : Signatures.ofUnit u = .ok ⟨[("C.m", .void)], [("C.m", [])]⟩ := rfl
    have failed : Verdict.ofUnit ⟨[("C.m", .void)], [("C.m", [])]⟩ u =
        .error ⟨.variableDeclared "x" "boolean", .unknown⟩ := by cbv
    exact ⟨_, _, collected, failed, ((checking_exact collected).2 _ failed).1⟩

end Javelet
