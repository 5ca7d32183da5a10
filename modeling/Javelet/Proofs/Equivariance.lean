import Javelet.Proofs.Noninterference
import Javelet.Proofs.Printing
import Javelet.Proofs.Renaming

namespace Javelet
open Run (Alike SameAnswer SameEnd)

namespace Obligation

mutual

/-- A tree without its labels: its shape, and what holds at the leaves. -/
def unlabelled : Obligation → Obligation
  | leaf _ holds => leaf "" holds
  | group _ children => group "" (unlabelledAll children)

def unlabelledAll : List Obligation → List Obligation
  | [] => []
  | first :: rest => unlabelled first :: unlabelledAll rest

end

theorem unlabelledAll_eq_map (trees : List Obligation) :
    unlabelledAll trees = trees.map unlabelled := by
  induction trees with
  | nil => rfl
  | cons first rest ih => rw [unlabelledAll, ih, List.map_cons]

theorem unlabelled_ofChildren (label label' : String) {trees trees' : List Obligation}
    (same : trees'.map unlabelled = trees.map unlabelled) :
    (ofChildren label' trees').unlabelled = (ofChildren label trees).unlabelled := by
  cases trees with
  | nil =>
    rw [List.map_nil, List.map_eq_nil_iff] at same
    rw [same]
    rfl
  | cons first rest =>
    cases trees' with
    | nil => cases same
    | cons first' rest' =>
      simp only [ofChildren, unlabelled, unlabelledAll_eq_map, same]

end Obligation

namespace Environment

def rename (r : String → String) (env : Environment) : Environment :=
  ⟨env.globals.rename r, env.bindings.map (Tag.renameEntry r)⟩

theorem typeOf_rename {r : String → String} (injective : Function.Injective r) (env : Environment)
    (name : String) : (env.rename r).typeOf (r name) = (env.typeOf name).rename r := by
  have inner := Bindings.lookup_map injective (Tag.rename r) env.bindings name
  have outer := Bindings.lookup_map injective (Tag.rename r) env.globals.types name
  change ((List.lookup (r name) (env.bindings.map (Prod.map r (Tag.rename r)))).or
    (List.lookup (r name) (env.globals.types.map (Prod.map r (Tag.rename r))))).getD .error = _
  rw [inner, outer, typeOf, Signatures.type?]
  cases env.bindings.lookup name with
  | some tag => rfl
  | none => cases env.globals.types.lookup name <;> rfl

end Environment

theorem Expression.typeIn_rename {r : String → String} (injective : Function.Injective r)
    (env : Environment) (e : Expression) :
    (e.rename r).typeIn (env.rename r) = (e.typeIn env).rename r := by
  cases e with
  | name text span => exact env.typeOf_rename injective text
  | number | boolean | null => rfl

def Scopes.rename (r : String → String) (scopes : Scopes) : Scopes :=
  ⟨scopes.globals.rename r, scopes.frames.map (List.map (Tag.renameEntry r))⟩

theorem Scopes.environment_rename (r : String → String) (scopes : Scopes) :
    (scopes.rename r).environment = scopes.environment.rename r := by
  simp [environment, rename, Environment.rename, List.map_flatten]

theorem Scopes.typeOf_rename {r : String → String} (injective : Function.Injective r)
    (scopes : Scopes) (name : String) :
    (scopes.rename r).typeOf (r name) = (scopes.typeOf name).rename r := by
  rw [← environment_typeOf, environment_rename, Environment.typeOf_rename injective,
    environment_typeOf]

theorem TypeExpr.resolve_rename (r : String → String) (t : TypeExpr) (allowVoid : Bool) :
    SameAnswer (fun _ _ => True) (fun tag tag' => tag' = tag.rename r) (t.resolve allowVoid)
      ((t.rename r).resolve allowVoid) := by
  obtain ⟨shape, position⟩ := t
  cases shape with
  | primitive p =>
    cases p with
    | int | boolean => exact .ok rfl
    | void =>
      cases allowVoid with
      | true => exact .ok rfl
      | false => exact .error trivial
    | _ => exact .error trivial
  | simple name => exact .ok rfl
  | qualified | array => exact .error trivial

theorem Declarator.single_rename (r : String → String) (declarators : List Declarator)
    (span : Span) :
    SameAnswer (fun _ _ => True) (fun d d' => d' = d.rename r) (single declarators span)
      (single (declarators.map (rename r)) span) := by
  match declarators with
  | [] => exact .error trivial
  | [d] => exact .ok rfl
  | _ :: _ :: _ => exact .error trivial

/-- A checker that has come as far under other names. -/
structure Checker.Renamed (r : String → String) (c c' : Checker) : Prop where
  scopes : c'.scopes = c.scopes.rename r
  className : c'.className = r c.className

/-- Another type by the renaming alone, for the same reasons. -/
structure Derivation.Renamed (r : String → String) (d d' : Derivation) : Prop where
  tag : d'.tag = d.tag.rename r
  shape : d'.tree.unlabelled = d.tree.unlabelled

namespace Derivation

theorem renamed_lookup (r : String → String) (name name' : String) (tag : Tag) :
    Renamed r (lookup name tag) (lookup name' (tag.rename r)) := by
  constructor
  · rfl
  · unfold lookup
    dsimp only
    apply Obligation.unlabelled_ofChildren
    simp [Obligation.unlabelled, Tag.isError_rename]

theorem renamed_all {r : String → String} {parts parts' : List Derivation}
    (each : List.Forall₂ (Renamed r) parts parts') :
    parts'.map (·.tag) = (parts.map (·.tag)).map (Tag.rename r) ∧
      (parts'.map (·.tree)).map Obligation.unlabelled =
        (parts.map (·.tree)).map Obligation.unlabelled := by
  induction each with
  | nil => exact ⟨rfl, rfl⟩
  | cons own _ ih => simp [own.tag, own.shape, ih.1, ih.2]

theorem renamed_ofParts {r : String → String} (subject subject' : String)
    {parts parts' : List Derivation} (each : List.Forall₂ (Renamed r) parts parts') :
    Renamed r (ofParts subject parts) (ofParts subject' parts') := by
  obtain ⟨tags, trees⟩ := renamed_all each
  constructor
  · change Tag.allVoid (parts'.map (·.tag)) = _
    rw [tags, Tag.allVoid_rename]
    rfl
  · exact Obligation.unlabelled_ofChildren _ _ trees

/-- A value fits a variable or not, whatever both are called. -/
theorem renamed_ofValue {r : String → String} (injective : Function.Injective r) (left : Tag)
    (env : Environment) (value : Option Expression) :
    (ofValue (left.rename r) (env.rename r) (value.map (Expression.rename r))).1 =
        (ofValue left env value).1 ∧
      (ofValue (left.rename r) (env.rename r) (value.map (Expression.rename r))).2.map
          Obligation.unlabelled = (ofValue left env value).2.map Obligation.unlabelled := by
  cases value with
  | none => simp [ofValue, Tag.isError_rename]
  | some e =>
    have looked := renamed_lookup r e.text (e.rename r).text (e.typeIn env)
    simp [ofValue, e.typeIn_rename injective, Tag.assignable_rename injective, looked.shape,
      Obligation.unlabelled]

end Derivation

namespace Check

variable {α β : Type} {r : String → String}

/-- The second check fails where the first does, and else comes as far under other names. -/
def Renames (r : String → String) (R : α → β → Prop) (x : Check α) (y : Check β) : Prop :=
  Alike (fun _ _ => True) (Checker.Renamed r) R x y

theorem step_renames {x : Check α} {y : Check β} {f : Checker → α} {f' : Checker → β}
    {g g' : Checker → Checker} (run : ∀ c, x.run c = .ok (f c) (g c))
    (run' : ∀ c, y.run c = .ok (f' c) (g' c)) {R : α → β → Prop}
    (results : ∀ c c', c.Renamed r c' → R (f c) (f' c'))
    (states : ∀ c c', c.Renamed r c' → (g c).Renamed r (g' c')) : Renames r R x y := by
  intro c c' like
  rw [run, run']
  exact .ok (results c c' like) (states c c' like)

theorem emit_renames (event event' : Event) :
    Renames r (fun _ _ => True) (emit event) (emit event') :=
  step_renames (fun _ => rfl) (fun _ => rfl) (fun _ _ _ => trivial)
    fun _ _ like => ⟨like.scopes, like.className⟩

theorem pushScope_renames : Renames r (fun _ _ => True) pushScope pushScope := by
  refine step_renames run_pushScope run_pushScope (fun _ _ _ => trivial) fun c c' like => ?_
  refine ⟨?_, like.className⟩
  simp [Checker.opened, like.scopes, Scopes.push, Scopes.rename]

theorem popScope_renames : Renames r (fun _ _ => True) popScope popScope := by
  have run (c : Checker) : popScope.run c = .ok () c.closed := rfl
  refine step_renames run run (fun _ _ _ => trivial) fun c c' like => ?_
  refine ⟨?_, like.className⟩
  simp [Checker.closed, like.scopes, Scopes.pop, Scopes.rename]

theorem numbers_rename {x : Check String} {f : Checker → String} {g : Checker → Checker}
    (run : ∀ c, x.run c = .ok (f c) (g c)) (scopes : ∀ c, (g c).scopes = c.scopes)
    (className : ∀ c, (g c).className = c.className) : Renames r (fun _ _ => True) x x := by
  refine step_renames run run (fun _ _ _ => trivial) fun c c' like => ⟨?_, ?_⟩
  · rw [scopes, scopes, like.scopes]
  · rw [className, className, like.className]

theorem nextBlock_renames : Renames r (fun _ _ => True) nextBlock nextBlock :=
  numbers_rename (fun _ => rfl) (fun _ => rfl) fun _ => rfl

theorem nextStatement_renames : Renames r (fun _ _ => True) nextStatement nextStatement :=
  numbers_rename run_nextStatement (fun _ => rfl) fun _ => rfl

theorem resetNumbers_renames : Renames r (fun _ _ => True) resetNumbers resetNumbers :=
  step_renames run_resetNumbers run_resetNumbers (fun _ _ _ => trivial)
    fun _ _ like => ⟨like.scopes, like.className⟩

theorem blockOf_renames {inside inside' : Check (List Derivation)}
    (renames : Renames r (List.Forall₂ (Derivation.Renamed r)) inside inside') :
    Renames r (Derivation.Renamed r) (blockOf inside) (blockOf inside') := by
  apply pushScope_renames.bind
  intro _ _ _
  apply renames.bind
  intro parts parts' each
  apply popScope_renames.bind
  intro _ _ _
  apply nextBlock_renames.bind
  intro number number' _
  exact .pure (Derivation.renamed_ofParts number number' each)

section
variable (carries : Carries r)
include carries

theorem typeOf_renames (name : String) :
    Renames r (fun tag tag' => tag' = tag.rename r) (typeOf name) (typeOf (r name)) := by
  refine step_renames (run_typeOf name) (run_typeOf (r name)) (fun c c' like => ?_)
    fun _ _ like => like
  rw [like.scopes, Scopes.environment_rename, Environment.typeOf_rename carries.injective]

theorem bind_rename (scopes : Scopes) (name : String) (tag : Tag) (position position' : Position) :
    SameAnswer (fun _ _ => True) (fun next next' => next' = next.rename r)
      (scopes.bind name tag position)
      ((scopes.rename r).bind (r name) (tag.rename r) position') := by
  unfold Scopes.bind
  dsimp only
  rw [Scopes.typeOf_rename carries.injective, Tag.isError_rename]
  by_cases free : (scopes.typeOf name).isError = true
  · rw [if_pos free, if_pos free]
    cases here : scopes.frames with
    | nil =>
      rw [Scopes.rename, here]
      exact .error trivial
    | cons frame outer =>
      rw [Scopes.rename, here]
      exact .ok rfl
  · rw [if_neg free, if_neg free]
    exact .error trivial

theorem bindName_renames (name : String) (tag : Tag) (position position' : Position) :
    Renames r (fun _ _ => True) (bindName name tag position)
      (bindName (r name) (tag.rename r) position') := by
  apply Alike.get.bind
  intro c c' like
  rw [like.scopes]
  apply (Alike.ofExcept (bind_rename carries c.scopes name tag position position')).bind
  rintro scopes _ rfl
  apply (emit_renames (.bound name tag) (.bound (r name) (tag.rename r))).bind
  intro _ _ _
  exact step_renames (fun _ => rfl) (fun _ => rfl) (fun _ _ _ => trivial)
    fun c c' like => ⟨rfl, like.className⟩

theorem initializer_renames (left : Tag) (value : Option Expression) :
    Renames r (fun fits fits' => fits'.1 = fits.1 ∧
        fits'.2.map Obligation.unlabelled = fits.2.map Obligation.unlabelled)
      (initializer left value)
      (initializer (left.rename r) (value.map (Expression.rename r))) := by
  refine step_renames (run_initializer left value) (run_initializer _ _) (fun c c' like => ?_)
    fun _ _ like => ⟨like.scopes, like.className⟩
  rw [like.scopes, Scopes.environment_rename]
  exact Derivation.renamed_ofValue carries.injective left c.scopes.environment value

theorem localDeclaration_renames (d : LocalDeclaration) :
    Renames r (Derivation.Renamed r) (localDeclaration d) (localDeclaration (d.rename r)) := by
  apply (Alike.ofExcept (Declarator.single_rename r d.declarators d.span)).bind
  rintro declarator _ rfl
  apply (Alike.ofExcept (d.type.resolve_rename r false)).bind
  rintro declared _ rfl
  apply (bindName_renames carries declarator.name declared d.span.start d.span.start).bind
  intro _ _ _
  apply (typeOf_renames carries declarator.name).bind
  rintro left _ rfl
  apply (initializer_renames carries left declarator.value).bind
  rintro ⟨_, obligations⟩ ⟨fits, obligations'⟩ ⟨same, trees⟩
  dsimp only at same trees
  subst same
  apply nextStatement_renames.bind
  intro number number' _
  have own := (Derivation.renamed_lookup r declarator.name (r declarator.name) left).shape
  apply Alike.pure
  constructor
  · cases fits <;> rfl
  · dsimp only
    apply Obligation.unlabelled_ofChildren
    simp [Declarator.rename, own, trees]

theorem statement_renames :
    (∀ s, Renames r (Derivation.Renamed r) (statement s) (statement (s.rename r))) ∧
    ∀ body, Renames r (List.Forall₂ (Derivation.Renamed r)) (statements body)
      (statements (Statement.renameIn r body)) := by
  apply Statement.induct
  case block =>
    intro body span inside
    rw [Statement.rename, statement, statement]
    exact blockOf_renames inside
  case declaration =>
    intro d
    rw [Statement.rename, statement, statement]
    exact localDeclaration_renames carries d
  case nil => exact Alike.pure .nil
  case cons =>
    intro first rest head tail
    rw [Statement.renameIn, statements, statements]
    apply head.bind
    intro part part' own
    apply tail.bind
    intro parts parts' others
    exact .pure (.cons own others)

theorem bindParameters_renames (start : Position) (entries : List (String × Tag))
    (written : List Parameter) :
    Renames r (fun _ _ => True) (bindParameters start entries written)
      (bindParameters start (entries.map (Tag.renameEntry r))
        (written.map (Parameter.rename r))) := by
  induction entries generalizing written with
  | nil =>
    rw [List.map_nil, bindParameters, bindParameters]
    exact Alike.pure trivial
  | cons entry rest ih =>
    obtain ⟨name, tag⟩ := entry
    cases written with
    | nil =>
      rw [List.map_nil, List.map_cons, bindParameters]
      apply (bindName_renames carries name tag start start).bind
      intro _ _ _
      exact ih []
    | cons p others =>
      rw [List.map_cons, List.map_cons, bindParameters]
      apply (bindName_renames carries name tag p.span.start p.span.start).bind
      intro _ _ _
      exact ih others

theorem method_renames (m : Method) (body : Block) :
    Renames r (Derivation.Renamed r) (method m body) (method (m.rename r) (body.rename r)) := by
  apply resetNumbers_renames.bind
  intro _ _ _
  apply Alike.get.bind
  intro c c' like
  rw [like.className]
  generalize c.className = owner
  apply Alike.get.bind
  intro c c' like
  rw [like.scopes]
  dsimp only [Method.rename]
  rw [← carries.memberName]
  have known : (c.scopes.rename r).globals.parameters? (r (Signatures.memberName owner m.name)) =
      (c.scopes.globals.parameters? (Signatures.memberName owner m.name)).map
        (List.map (Tag.renameEntry r)) :=
    Bindings.lookup_map carries.injective _ _ _
  rw [known]
  cases c.scopes.globals.parameters? (Signatures.memberName owner m.name) with
  | none => exact Alike.throw trivial
  | some parameters =>
    have bindThis := bindName_renames carries "this" (.reference owner) m.span.start m.span.start
    have bindReturn (result : Tag) :=
      bindName_renames carries "return" result m.span.start m.span.start
    rw [carries.this] at bindThis
    rw [carries.result] at bindReturn
    apply pushScope_renames.bind
    intro _ _ _
    apply (bindParameters_renames carries m.span.start parameters m.parameters).bind
    intro _ _ _
    apply bindThis.bind
    intro _ _ _
    apply (typeOf_renames carries _).bind
    rintro result _ rfl
    apply (bindReturn result).bind
    intro _ _ _
    rw [block_eq_statement, block_eq_statement, Statement.ofBlock_rename]
    apply ((statement_renames carries).1 _).bind
    intro inner inner' same
    apply popScope_renames.bind
    intro _ _ _
    apply (emit_renames _ _).bind
    intro _ _ _
    apply Alike.pure
    refine ⟨same.tag, ?_⟩
    dsimp only
    apply Obligation.unlabelled_ofChildren
    simp [same.shape]

theorem methods_rename (all : List Method) :
    Renames r (List.Forall₂ (Derivation.Renamed r)) (methods all)
      (methods (all.map (Method.rename r))) := by
  induction all with
  | nil => exact Alike.pure .nil
  | cons m rest ih =>
    cases hasBody : m.body with
    | none =>
      have bodiless : (m.rename r).body = none := by simp [Method.rename, hasBody]
      rw [List.map_cons, methods_bodiless hasBody, methods_bodiless bodiless]
      exact ih
    | some body =>
      have renamed : (m.rename r).body = some (body.rename r) := by
        simp [Method.rename, hasBody]
      rw [List.map_cons, methods, methods, hasBody, renamed]
      apply (method_renames carries m body).bind
      intro part part' own
      apply ih.bind
      intro parts parts' others
      exact .pure (.cons own others)

theorem ofClass_renames (cls : Class) :
    Renames r (Derivation.Renamed r) (ofClass cls) (ofClass (cls.rename r)) := by
  obtain ⟨name, modifiers, fields, all, nested, span⟩ := cls
  apply Alike.bind (R := fun _ _ => True)
  · exact step_renames (fun _ => rfl) (fun _ => rfl) (fun _ _ _ => trivial)
      fun c c' like => ⟨like.scopes, rfl⟩
  · intro _ _ _
    apply (methods_rename carries all).bind
    intro parts parts' each
    exact .pure (Derivation.renamed_ofParts _ _ each)

theorem classes_rename (all : List Class) :
    Renames r (List.Forall₂ (Derivation.Renamed r)) (classes all)
      (classes (all.map (Class.rename r))) := by
  induction all with
  | nil => exact Alike.pure .nil
  | cons cls rest ih =>
    apply (ofClass_renames carries cls).bind
    intro part part' own
    apply ih.bind
    intro parts parts' others
    exact .pure (.cons own others)

theorem unit_renames (u : CompilationUnit) :
    Renames r (Derivation.Renamed r) (unit u) (unit (u.rename r)) := by
  apply (classes_rename carries u.classes).bind
  intro parts parts' each
  exact .pure (Derivation.renamed_ofParts _ _ each)

end
end Check

/-- Under other names a unit is checked just as far, and to the same end for the same reasons. -/
theorem Verdict.ofUnit_rename {r : String → String} (carries : Carries r)
    (signatures : Signatures) (u : CompilationUnit) :
    SameAnswer (fun _ _ => True)
      (fun v v' => v'.wellTyped = v.wellTyped ∧ v'.root.unlabelled = v.root.unlabelled)
      (ofUnit signatures u) (ofUnit (signatures.rename r) (u.rename r)) := by
  have start : (Checker.initial signatures).Renamed r (.initial (signatures.rename r)) :=
    ⟨rfl, carries.unnamed.symm⟩
  have ends := Check.unit_renames carries u _ _ start
  rw [ofUnit_eq, ofUnit_eq]
  generalize (Check.unit u).run (.initial signatures) = left at ends
  generalize (Check.unit (u.rename r)).run (.initial (signatures.rename r)) = right at ends
  cases ends with
  | ok same _ =>
    apply SameAnswer.ok
    dsimp only
    rw [same.tag, Tag.isVoid_rename]
    exact ⟨rfl, same.shape⟩
  | error same => exact .error trivial

/-- A text that a program can use as a name. -/
def IsName (text : String) : Prop :=
  Lexeme.isWord text.toList = true ∧ Kind.reserved? text = none

instance (text : String) : Decidable (IsName text) :=
  inferInstanceAs (Decidable (_ ∧ _))

/-- Names for names, different ones for different ones, and `this` for itself. -/
structure Renaming (r : String → String) : Prop where
  names : ∀ name, IsName name → IsName (r name)
  injective : ∀ name name', IsName name → IsName name' → r name = r name' → name = name'
  this : r "this" = "this"

theorem IsName.undotted {name : String} (own : IsName name) : Undotted name :=
  Lexeme.undotted_of_isWord own.1

theorem not_mem_of_mem_splitOn {c : Char} {cs part : List Char} (member : part ∈ cs.splitOn c) :
    c ∉ part := by
  induction cs generalizing part with
  | nil =>
    rw [List.splitOn_nil, List.mem_singleton] at member
    simp [member]
  | cons d rest ih =>
    rw [List.splitOn_cons_eq_if_modifyHead] at member
    by_cases same : d = c
    · rw [if_pos (beq_iff_eq.mpr same)] at member
      obtain rfl | later := List.mem_cons.mp member
      · exact List.not_mem_nil
      · exact ih later
    · rw [if_neg (by simpa using same)] at member
      obtain ⟨first, others, split⟩ := List.exists_cons_of_ne_nil (List.splitOn_ne_nil c rest)
      rw [split, List.modifyHead_cons] at member
      rw [split] at ih
      obtain rfl | later := List.mem_cons.mp member
      · have clean := ih List.mem_cons_self
        simpa [Ne.symm same] using clean
      · exact ih (List.mem_cons_of_mem _ later)

theorem undotted_of_mem_nameParts {text part : String} (member : part ∈ nameParts text) :
    Undotted part := by
  obtain ⟨cs, own, rfl⟩ := List.mem_map.mp member
  rw [Undotted, String.toList_ofList]
  exact not_mem_of_mem_splitOn own

theorem nameParts_of_undotted {text : String} (undotted : Undotted text) :
    nameParts text = [text] := by
  rw [nameParts, List.splitOn_eq_singleton undotted, List.map_singleton, String.ofList_toList]

theorem nameParts_memberName (owner member : String) :
    nameParts (Signatures.memberName owner member) = nameParts owner ++ nameParts member := by
  have split : (Signatures.memberName owner member).toList =
      owner.toList ++ '.' :: member.toList := by
    simp [Signatures.memberName]
  rw [nameParts, split, List.splitOn_append_cons_self, List.map_append]
  rfl

theorem nameParts_intercalate {parts : List String} (undotted : ∀ part ∈ parts, Undotted part)
    (some : parts ≠ []) : nameParts (".".intercalate parts) = parts := by
  have joined : (".".intercalate parts).toList = ['.'].intercalate (parts.map String.toList) := by
    rw [String.toList_intercalate]
    rfl
  rw [nameParts, joined, List.splitOn_intercalate, List.map_map]
  · simp [Function.comp_def]
  · exact List.forall_mem_map.mpr undotted
  · simpa using some

namespace Renaming

/-- What becomes of a part between dots: it stays if it is not a name. -/
def part (r : String → String) (text : String) : String := if IsName text then r text else text

/-- A renaming of names as one of all texts, part by part. -/
def carried (r : String → String) (text : String) : String :=
  ".".intercalate ((nameParts text).map (part r))

variable {r : String → String} (renames : Renaming r)

theorem carried_of_undotted {text : String} (undotted : Undotted text) :
    carried r text = part r text := by
  rw [carried, nameParts_of_undotted undotted, List.map_singleton, String.intercalate_singleton]

theorem carried_of_isName {name : String} (own : IsName name) : carried r name = r name := by
  rw [carried_of_undotted own.undotted, part, if_pos own]

theorem carried_of_other {text : String} (undotted : Undotted text) (other : ¬IsName text) :
    carried r text = text := by
  rw [carried_of_undotted undotted, part, if_neg other]

include renames

theorem isName_part_iff (text : String) : IsName (part r text) ↔ IsName text := by
  unfold part
  by_cases own : IsName text
  · rw [if_pos own]
    exact iff_of_true (renames.names text own) own
  · rw [if_neg own]

theorem part_undotted {text : String} (undotted : Undotted text) : Undotted (part r text) := by
  unfold part
  by_cases own : IsName text
  · rw [if_pos own]
    exact (renames.names text own).undotted
  · rw [if_neg own]
    exact undotted

theorem part_injective : Function.Injective (part r) := by
  intro a b same
  have sort : IsName a ↔ IsName b := by
    rw [← renames.isName_part_iff a, same, renames.isName_part_iff]
  unfold part at same
  by_cases own : IsName a
  · rw [if_pos own, if_pos (sort.mp own)] at same
    exact renames.injective a b own (sort.mp own) same
  · rw [if_neg own, if_neg fun other => own (sort.mpr other)] at same
    exact same

theorem nameParts_carried (text : String) :
    nameParts (carried r text) = (nameParts text).map (part r) := by
  apply nameParts_intercalate
  · rw [List.forall_mem_map]
    exact fun part member => renames.part_undotted (undotted_of_mem_nameParts member)
  · simp [nameParts]

theorem carries : Carries (carried r) where
  injective := by
    intro a b same
    have parts := congrArg nameParts same
    rw [renames.nameParts_carried, renames.nameParts_carried] at parts
    have whole := List.map_injective_iff.mpr renames.part_injective parts
    rw [← intercalate_nameParts a, whole, intercalate_nameParts]
  memberName := by
    intro owner member
    rw [carried, nameParts_memberName, List.map_append, String.intercalate_append_of_ne_nil]
    · rfl
    · simp [nameParts]
    · simp [nameParts]
  this := by
    rw [carried_of_isName (by decide), renames.this]
  result := carried_of_other (by unfold Undotted; decide) (by decide)
  unnamed := carried_of_other (by unfold Undotted; decide) (by decide)

end Renaming

/-- Any names do. With other names for all that a unit declares and uses, collecting succeeds as
before, and so does checking, each against its own record. The verdict is the same, and the tree
differs in its labels alone. -/
theorem names_never_matter {source file : String} {u : CompilationUnit}
    (parsed : CompilationUnit.ofSource source file = .ok u) {r : String → String}
    (renames : Renaming r) :
    ((∃ s, Signatures.ofUnit u = .ok s) ↔ ∃ s', Signatures.ofUnit (u.rename r) = .ok s') ∧
    ∀ s s', Signatures.ofUnit u = .ok s → Signatures.ofUnit (u.rename r) = .ok s' →
      ((∃ v, Verdict.ofUnit s u = .ok v) ↔ ∃ v', Verdict.ofUnit s' (u.rename r) = .ok v') ∧
      ∀ v v', Verdict.ofUnit s u = .ok v → Verdict.ofUnit s' (u.rename r) = .ok v' →
        v'.wellTyped = v.wellTyped ∧ v'.root.unlabelled = v.root.unlabelled := by
  -- On the names of a source the renaming is as it is on all texts.
  have same : u.rename r = u.rename (Renaming.carried r) := by
    apply CompilationUnit.rename_congr
    intro c member text written
    have own : IsName text := CompilationUnit.marks_spelled parsed c member _ written
    exact (Renaming.carried_of_isName own).symm
  rw [same]
  have collected (s' : Signatures) := Signatures.ofUnit_rename renames.carries u s'
  constructor
  · constructor
    · rintro ⟨s, found⟩
      exact ⟨_, (collected _).mpr ⟨s, found, rfl⟩⟩
    · rintro ⟨s', found⟩
      obtain ⟨s, before, _⟩ := (collected s').mp found
      exact ⟨s, before⟩
  · intro s s' found found'
    obtain ⟨t, before, rfl⟩ := (collected s').mp found'
    cases found.symm.trans before
    have answers := Verdict.ofUnit_rename renames.carries s u
    generalize Verdict.ofUnit s u = left at answers
    generalize Verdict.ofUnit (s.rename (Renaming.carried r))
      (u.rename (Renaming.carried r)) = right at answers
    cases answers with
    | ok alike =>
      refine ⟨iff_of_true ⟨_, rfl⟩ ⟨_, rfl⟩, ?_⟩
      rintro _ _ ⟨⟩ ⟨⟩
      exact alike
    | error _ => exact ⟨by simp, nofun⟩

/-- A class and a variable exchange their names. -/
theorem names_never_matter_sample :
    let r := Equiv.swap "C" "x"
    ∃ u s s' v v',
      CompilationUnit.ofSource "class C\x7bC m(int y)\x7bC x=y;\x7d\x7d" "" = .ok u ∧ Renaming r ∧
      Signatures.ofUnit u = .ok s ∧ Signatures.ofUnit (u.rename r) = .ok s' ∧
      Verdict.ofUnit s u = .ok v ∧ Verdict.ofUnit s' (u.rename r) = .ok v' ∧
      v'.wellTyped = v.wellTyped ∧ v'.root.unlabelled = v.root.unlabelled := by
  intro r
  have renames : Renaming r := by
    refine ⟨?_, fun _ _ _ _ same => r.injective same, ?_⟩
    · intro name own
      rw [Equiv.swap_apply_def]
      split_ifs
      · decide
      · decide
      · exact own
    · exact Equiv.swap_apply_of_ne_of_ne (by decide) (by decide)
  have well : (check "class C\x7bC m(int y)\x7bC x=y;\x7d\x7d" "").isOk = true := by cbv
  obtain ⟨checked, done⟩ := Run.exists_of_isOk well
  obtain ⟨u, parsed, rest⟩ := (Run.except_bind_ok_iff ..).mp done
  obtain ⟨s, collected, rest⟩ := (Run.except_bind_ok_iff ..).mp rest
  obtain ⟨v, judged, _⟩ := (Run.except_bind_ok_iff ..).mp rest
  obtain ⟨collects, checks⟩ := names_never_matter parsed renames
  obtain ⟨s', collected'⟩ := collects.mp ⟨s, collected⟩
  obtain ⟨judges, same⟩ := checks s s' collected collected'
  obtain ⟨v', judged'⟩ := judges.mp ⟨v, judged⟩
  exact ⟨u, s, s', v, v', parsed, renames, collected, collected', judged, judged',
    same v v' judged judged'⟩

end Javelet
