import Javelet.Proofs.Bindings
import Javelet.Proofs.Written
import Javelet.Scopes

namespace Javelet

/-- What a place can see: the bindings made on the way to it, the latest first, and around them what
the class declares. -/
structure Environment where
  globals : Signatures
  bindings : List (String × Tag)

namespace Environment

/-- The latest binding of a name, else what is declared, else nothing but an error. -/
def typeOf (env : Environment) (name : String) : Tag :=
  ((env.bindings.lookup name).or (env.globals.type? name)).getD .error

def bind (env : Environment) (name : String) (tag : Tag) : Environment :=
  { env with bindings := (name, tag) :: env.bindings }

def extend (env : Environment) (bindings : List (String × Tag)) : Environment :=
  { env with bindings := bindings ++ env.bindings }

@[simp] theorem typeOf_bind_self (env : Environment) (name : String) (tag : Tag) :
    (env.bind name tag).typeOf name = tag := by
  simp [typeOf, bind]

theorem extend_extend (env : Environment) (first later : List (String × Tag)) :
    (env.extend first).extend later = env.extend (later ++ first) := by
  simp [extend]

/-- Each of the names is free when its turn comes to be bound. -/
def Admits (env : Environment) : List (String × Tag) → Prop
  | [] => True
  | (name, tag) :: rest => env.typeOf name = .error ∧ (env.bind name tag).Admits rest

theorem admits_concat (env : Environment) (entries : List (String × Tag)) (name : String)
    (tag : Tag) :
    env.Admits (entries ++ [(name, tag)]) ↔
      env.Admits entries ∧ (env.extend entries.reverse).typeOf name = .error := by
  induction entries generalizing env with
  | nil => simp [Admits, extend]
  | cons entry rest ih =>
    have same : (env.bind entry.1 entry.2).extend rest.reverse =
        env.extend (entry :: rest).reverse := by
      simp [bind, extend]
    rw [List.cons_append, Admits, Admits, ih, same, and_assoc]

/-- Nothing that is visible has the type `error`. -/
def Proper (env : Environment) : Prop :=
  (∀ entry ∈ env.bindings, entry.2 ≠ .error) ∧ ∀ entry ∈ env.globals.types, entry.2 ≠ .error

/-- In a proper environment only a name that is nowhere bound is without a type. -/
theorem typeOf_eq_error_iff {env : Environment} (proper : env.Proper) (name : String) :
    env.typeOf name = .error ↔
      name ∉ env.bindings.map Prod.fst ∧ name ∉ env.globals.types.map Prod.fst := by
  rw [← Bindings.lookup_eq_none_iff, ← Bindings.lookup_eq_none_iff, typeOf, Signatures.type?]
  cases inner : env.bindings.lookup name with
  | some tag => simpa using proper.1 _ (Bindings.mem_of_lookup inner)
  | none =>
    cases outer : env.globals.types.lookup name with
    | some tag => simpa using proper.2 _ (Bindings.mem_of_lookup outer)
    | none => simp

theorem Proper.bind {env : Environment} (proper : env.Proper) (name : String) {tag : Tag}
    (typed : tag ≠ .error) : (env.bind name tag).Proper := by
  refine ⟨?_, proper.2⟩
  exact List.forall_mem_cons.mpr ⟨typed, proper.1⟩

/-- Where all is proper, names can be bound in a row exactly if they differ from each other and from
all that is visible. -/
theorem admits_iff {env : Environment} (proper : env.Proper) {entries : List (String × Tag)}
    (typed : ∀ entry ∈ entries, entry.2 ≠ .error) :
    env.Admits entries ↔ (entries.map Prod.fst).Nodup ∧
      ∀ name ∈ entries.map Prod.fst,
        name ∉ env.bindings.map Prod.fst ∧ name ∉ env.globals.types.map Prod.fst := by
  induction entries generalizing env with
  | nil => simp [Admits]
  | cons entry rest ih =>
    obtain ⟨name, tag⟩ := entry
    obtain ⟨here, there⟩ := List.forall_mem_cons.mp typed
    rw [Admits, typeOf_eq_error_iff proper, ih (proper.bind name here) there, List.map_cons,
      List.nodup_cons, List.forall_mem_cons]
    constructor
    · rintro ⟨free, distinct, others⟩
      have apart : name ∉ rest.map Prod.fst := by
        intro member
        exact (others name member).1 (List.mem_cons_self ..)
      refine ⟨⟨apart, distinct⟩, free, ?_⟩
      intro other member
      obtain ⟨unbound, undeclared⟩ := others other member
      exact ⟨fun bound => unbound (List.mem_cons_of_mem _ bound), undeclared⟩
    · rintro ⟨⟨apart, distinct⟩, free, others⟩
      refine ⟨free, distinct, ?_⟩
      intro other member
      obtain ⟨unbound, undeclared⟩ := others other member
      refine ⟨?_, undeclared⟩
      intro bound
      obtain rfl | old := List.mem_cons.mp bound
      · exact apart member
      · exact unbound old

theorem Proper.extend {env : Environment} (proper : env.Proper) {bindings : List (String × Tag)}
    (added : ∀ entry ∈ bindings, entry.2 ≠ .error) : (env.extend bindings).Proper := by
  refine ⟨?_, proper.2⟩
  intro entry member
  obtain new | old := List.mem_append.mp member
  · exact added entry new
  · exact proper.1 entry old

end Environment

namespace Scopes

/-- Bindings added to the innermost scope. -/
def extend (scopes : Scopes) (bindings : List (String × Tag)) : Scopes :=
  match scopes.frames with
  | [] => scopes
  | frame :: outer => { scopes with frames := (bindings ++ frame) :: outer }

def environment (scopes : Scopes) : Environment := ⟨scopes.globals, scopes.frames.flatten⟩

theorem environment_closed {scopes : Scopes} (closed : scopes.frames = []) :
    scopes.environment = ⟨scopes.globals, []⟩ := by
  rw [environment, closed, List.flatten_nil]

theorem environment_typeOf (scopes : Scopes) (name : String) :
    scopes.environment.typeOf name = scopes.typeOf name := by
  simp only [Environment.typeOf, environment, typeOf, Bindings.lookup_flatten]

theorem environment_extend {scopes : Scopes} (opened : scopes.frames ≠ [])
    (bindings : List (String × Tag)) :
    (scopes.extend bindings).environment = scopes.environment.extend bindings := by
  unfold extend
  split
  · rename_i closed; exact absurd closed opened
  · rename_i frame outer here
    simp [environment, Environment.extend, here]

@[simp] theorem extend_nil (scopes : Scopes) : scopes.extend [] = scopes := by
  unfold extend
  split
  · rfl
  · rename_i here; simp [← here]

theorem extend_extend (scopes : Scopes) (first later : List (String × Tag)) :
    (scopes.extend first).extend later = scopes.extend (later ++ first) := by
  unfold extend
  cases here : scopes.frames with
  | nil => simp [here]
  | cons frame outer => simp

theorem extend_opened {scopes : Scopes} (opened : scopes.frames ≠ [])
    (bindings : List (String × Tag)) : (scopes.extend bindings).frames ≠ [] := by
  unfold extend
  split
  · exact opened
  · exact List.cons_ne_nil _ _

/-- Closing a scope drops whatever was bound in it. -/
@[simp] theorem pop_extend_push (scopes : Scopes) (bindings : List (String × Tag)) :
    (scopes.push.extend bindings).pop = scopes := rfl

theorem bind_ok_iff (scopes next : Scopes) (name : String) (tag : Tag) (position : Position) :
    scopes.bind name tag position = .ok next ↔
      scopes.typeOf name = .error ∧ scopes.frames ≠ [] ∧ next = scopes.extend [(name, tag)] := by
  rw [bind_eq_ok_iff]
  constructor
  · rintro ⟨free, frame, outer, here, rfl⟩
    exact ⟨free, here ▸ List.cons_ne_nil frame outer, by simp [extend, here]⟩
  · rintro ⟨free, opened, rfl⟩
    obtain ⟨frame, outer, here⟩ := List.exists_cons_of_ne_nil opened
    exact ⟨free, frame, outer, here, by simp [extend, here]⟩

/-- In an open scope, binding fails for a visible name only. -/
theorem bind_error {scopes : Scopes} (opened : scopes.frames ≠ []) {name : String} {tag : Tag}
    {position : Position} {e : Error} (h : scopes.bind name tag position = .error e) :
    ∃ type, e.cause = .variableDeclared name type := by
  obtain ⟨frame, outer, here⟩ := List.exists_cons_of_ne_nil opened
  simp only [bind, here] at h
  split at h
  · cases h
  · cases h; exact ⟨_, rfl⟩

end Scopes

/-- Statements and lists of them are built together, so what holds of them is proved together. -/
theorem Statement.induct {P : Statement → Prop} {Q : List Statement → Prop}
    (block : ∀ body span, Q body → P (.block body span))
    (declaration : ∀ d, P (.declaration d))
    (nil : Q []) (cons : ∀ first rest, P first → Q rest → Q (first :: rest)) :
    (∀ s, P s) ∧ ∀ body, Q body :=
  ⟨@Statement.rec P Q block declaration nil cons, @Statement.rec_1 P Q block declaration nil cons⟩

/-- A local declaration in its place, after the ones of its own block and of the blocks around it
that are still open there, the latest first. -/
structure Site where
  earlier : List LocalDeclaration
  declaration : LocalDeclaration

namespace Statement

/-- What a statement leaves in scope for the next: a block takes its own declarations with it. -/
def declared : Statement → List LocalDeclaration
  | .block _ _ => []
  | .declaration d => [d]

mutual

/-- The local declarations in source order, each in its place. -/
def sites (earlier : List LocalDeclaration) : Statement → List Site
  | .block body _ => sitesIn earlier body
  | .declaration d => [⟨earlier, d⟩]

def sitesIn (earlier : List LocalDeclaration) : List Statement → List Site
  | [] => []
  | first :: rest => sites earlier first ++ sitesIn (first.declared ++ earlier) rest

end
end Statement

def Method.sites (m : Method) : List Site :=
  match m.body with
  | some body => Statement.sitesIn [] body.body
  | none => []

theorem Method.sites_eq {m : Method} {body : Block} (hasBody : m.body = some body) :
    (Statement.ofBlock body).sites [] = m.sites := by
  rw [Method.sites, hasBody, Statement.ofBlock, Statement.sites]

theorem Method.hasBody_of_site {m : Method} {site : Site} (place : site ∈ m.sites) :
    m.body.isSome = true := by
  unfold sites at place
  split at place
  · rename_i body here
    rw [here, Option.isSome_some]
  · cases place

/-- The name that a declaration binds, with its type. -/
def LocalDeclaration.bindings (d : LocalDeclaration) : List (String × Tag) :=
  match d.binding? with
  | some (declarator, tag) => [(declarator.name, tag)]
  | none => []

theorem LocalDeclaration.bindings_proper (d : LocalDeclaration) :
    ∀ entry ∈ d.bindings, entry.2 ≠ .error := by
  unfold bindings
  split
  · rename_i declarator tag bound
    have typed := ((Declarator.typed?_eq_some_iff ..).mp bound).2
    simpa using (TypeShape.tag?_proper typed).1
  · simp

/-- The bindings of several declarations, in their order. -/
def LocalDeclaration.allBindings (declarations : List LocalDeclaration) : List (String × Tag) :=
  declarations.flatMap bindings

theorem LocalDeclaration.allBindings_proper (declarations : List LocalDeclaration) :
    ∀ entry ∈ allBindings declarations, entry.2 ≠ .error := by
  intro entry member
  obtain ⟨d, _, own⟩ := List.mem_flatMap.mp member
  exact d.bindings_proper entry own

theorem LocalDeclaration.allBindings_append (a b : List LocalDeclaration) :
    allBindings (a ++ b) = allBindings a ++ allBindings b :=
  List.flatMap_append ..

end Javelet
