import Javelet.Proofs.Agreement
import Javelet.Proofs.Independence
import Javelet.Proofs.Members
import Javelet.Proofs.Relevance

/-! Methods are checked independently of each other and of the order of members. What is derived of
a method is what a checker would derive that has seen no other, and that depends on the entries of
the record alone, not on their order. -/
namespace Javelet

/-- Both have the same entries. -/
structure Signatures.Agrees (s s' : Signatures) : Prop where
  types : ∀ name, s.type? name = s'.type? name
  parameters : ∀ name, s.parameters? name = s'.parameters? name

theorem Bindings.lookup_perm {α : Type} {bindings bindings' : List (String × α)}
    (perm : bindings.Perm bindings') (distinct : (bindings.map Prod.fst).Nodup) (name : String) :
    bindings.lookup name = bindings'.lookup name := by
  have distinct' := (perm.map Prod.fst).nodup_iff.mp distinct
  apply Option.ext
  intro a
  rw [lookup_eq_some_iff_mem distinct, lookup_eq_some_iff_mem distinct', perm.mem_iff]

/-- The same class with its members in another order, and in other places. -/
structure Class.Reorders (cls cls' : Class) : Prop where
  name : cls'.name = cls.name
  modifiers : cls'.modifiers = cls.modifiers
  nested : cls'.nested.map Class.erase = cls.nested.map Class.erase
  fields : (cls'.fields.map Field.erase).Perm (cls.fields.map Field.erase)
  methods : (cls'.methods.map Method.erase).Perm (cls.methods.map Method.erase)

theorem Class.memberNames_erased (c : Class) : c.memberNames =
    ((c.fields.map Field.erase).flatMap fun f => f.declarators.map (·.name)) ++
      (c.methods.map Method.erase).map (·.name) := by
  simp [memberNames, List.flatMap_map, Field.erase, Method.erase, Declarator.erase,
    Function.comp_def]

theorem Class.types_erased (c : Class) : c.signatures.types =
    ((c.fields.map Field.erase).flatMap fun f => (f.signatures c.name).types) ++
      (c.methods.map Method.erase).flatMap fun m => (m.signatures c.name).types := by
  simp [signatures, Signatures.types_concat, List.flatMap_map, Field.signatures_erase,
    Method.signatures_erase]

theorem Class.parameters_erased (c : Class) : c.signatures.parameters =
    ((c.fields.map Field.erase).flatMap fun f => (f.signatures c.name).parameters) ++
      (c.methods.map Method.erase).flatMap fun m => (m.signatures c.name).parameters := by
  simp [signatures, Signatures.parameters_concat, List.flatMap_map, Field.signatures_erase,
    Method.signatures_erase]

namespace Class.Reorders

variable {cls cls' : Class} (r : cls.Reorders cls')
include r

theorem supported (supported : cls.Supported) : cls'.Supported := by
  constructor
  · rw [r.modifiers]
    exact supported.modifiers
  · have flat := r.nested
    rw [supported.flat, List.map_nil, List.map_eq_nil_iff] at flat
    exact flat
  · intro f member
    have listed := r.fields.mem_iff.mp (List.mem_map_of_mem member)
    obtain ⟨own, ownMember, same⟩ := List.mem_map.mp listed
    rw [← Field.supported_erase, ← same, Field.supported_erase]
    exact supported.fields own ownMember
  · intro m member
    have listed := r.methods.mem_iff.mp (List.mem_map_of_mem member)
    obtain ⟨own, ownMember, same⟩ := List.mem_map.mp listed
    rw [← Method.supported_erase, ← same, Method.supported_erase]
    exact supported.methods own ownMember
  · have perm : cls'.memberNames.Perm cls.memberNames := by
      rw [memberNames_erased, memberNames_erased]
      exact (r.fields.flatMap_right _).append (r.methods.map _)
    exact perm.nodup_iff.mpr supported.distinct

theorem agrees (supported : cls.Supported) : cls'.signatures.Agrees cls.signatures := by
  have record := recorded (r.supported supported)
  have distinct : cls'.signatures.keys.Nodup := by
    rw [record.keys]
    exact List.Nodup.map (Signatures.memberName_injective _) (r.supported supported).distinct
  constructor
  · intro name
    apply Bindings.lookup_perm _ distinct
    rw [types_erased, types_erased, r.name]
    exact (r.fields.flatMap_right _).append (r.methods.flatMap_right _)
  · intro name
    apply Bindings.lookup_perm
    · rw [parameters_erased, parameters_erased, r.name]
      exact (r.fields.flatMap_right _).append (r.methods.flatMap_right _)
    · rw [record.parameterKeys]
      have names := (List.nodup_append.mp (r.supported supported).distinct).2.1
      have keys := List.Nodup.map (Signatures.memberName_injective cls'.name) names
      rwa [List.map_map] at keys

end Class.Reorders

theorem Outline.spells_of_forall {P : String → Prop} (all : ∀ name, P name) (o : Outline) :
    o.Spells P := by
  induction o using Outline.induct with
  | step o ih => exact .intro (fun name _ => all name) ih

/-- Records with the same entries serve every method alike. -/
theorem Signatures.Agrees.served {s s' : Signatures} (agrees : s.Agrees s') (owner : String)
    (m : Method) : m.ServedAlike s s' owner where
  parameters := agrees.parameters _
  type := agrees.types _
  recorded _ _ entry _ := agrees.types entry.1
  implied := ⟨agrees.types _, agrees.types _⟩
  body _ _ := Outline.spells_of_forall agrees.types _

theorem Signatures.Agrees.refl (s : Signatures) : s.Agrees s := ⟨fun _ => rfl, fun _ => rfl⟩

namespace Check

/-- What a checker that has seen no other method derives of a method with a body. -/
def alone (s : Signatures) (owner : String) (m : Method) : Option Derivation :=
  match m.body with
  | none => none
  | some body =>
    match (method m body).run (.within s owner) with
    | .ok d _ => some d
    | .error _ _ => none

variable {s s' : Signatures} {owner : String}

theorem alone_eq_some_iff {m : Method} {body : Block} (hasBody : m.body = some body)
    (d : Derivation) :
    alone s owner m = some d ↔ ∃ c, (method m body).run (.within s owner) = .ok d c := by
  rw [alone, hasBody]
  dsimp only
  cases (method m body).run (.within s owner) with
  | ok d' c => simp
  | error e c => simp

theorem alone_agrees (agrees : s.Agrees s') (m : Method) :
    alone s owner m = alone s' owner m := by
  unfold alone
  cases hasBody : m.body with
  | none => rfl
  | some body =>
    have ends := method_abreast (agrees.served owner m) hasBody _ _
      (Checker.within_abreast s s' owner)
    dsimp only
    generalize (method m body).run (.within s owner) = left at ends
    generalize (method m body).run (.within s' owner) = right at ends
    cases ends with
    | ok same _ => rw [same]
    | error _ => rfl

theorem alone_erase (m : Method) : alone s owner m.erase = alone s owner m := by
  have keeps := Declarator.move_keeps .forget
  rw [Declarator.move_forget] at keeps
  unfold alone
  cases hasBody : m.body with
  | none =>
    have bodiless : m.erase.body = none := by simp [Method.erase, hasBody]
    rw [bodiless]
  | some body =>
    have erased : m.erase.body = some body.erase := by simp [Method.erase, hasBody]
    have ends := method_follows (r := .forget) keeps m body (.within s owner) (.within s owner)
      ⟨rfl, rfl, fun _ => rfl⟩
    rw [Method.revise_forget, Block.revise_forget] at ends
    rw [erased]
    dsimp only
    generalize (method m body).run (.within s owner) = left at ends
    generalize (method m.erase body.erase).run (.within s owner) = right at ends
    cases ends with
    | ok same _ => rw [same trivial]
    | error _ => rfl

/-- The methods with a body. -/
def bodied (all : List Method) : List Method := all.filter (·.body.isSome)

/-- A method leaves nothing behind that matters to the next. -/
theorem method_leaves {m : Method} {body : Block} {c c' : Checker} {d : Derivation}
    (start : Checker.Abreast s s owner (.within s owner) c)
    (run : (method m body).run c = .ok d c') :
    Checker.Abreast s s owner (.within s owner) c' := by
  obtain ⟨scopes, className⟩ := method_scopes run
  exact { start with
    record' := by rw [scopes, start.record']
    frames := by rw [scopes, start.frames]
    owner_eq' := by rw [className, start.owner_eq'] }

theorem bodied_erase (all : List Method) :
    bodied (all.map Method.erase) = (bodied all).map Method.erase := by
  simp [bodied, List.filter_map, Function.comp_def, Method.erase]

/-- Methods in a row derive what each of them derives by itself. -/
theorem methods_ok_iff_alone (all : List Method) {c : Checker}
    (start : Checker.Abreast s s owner (.within s owner) c) (parts : List Derivation) :
    (∃ c', (methods all).run c = .ok parts c') ↔
      (bodied all).map (alone s owner) = parts.map some := by
  induction all generalizing c parts with
  | nil =>
    simp only [methods_nil_ok_iff]
    constructor
    · rintro ⟨_, rfl, _⟩
      rfl
    · intro each
      have none : parts = [] := List.map_eq_nil_iff.mp each.symm
      exact ⟨c, none, rfl⟩
  | cons m rest ih =>
    cases hasBody : m.body with
    | none =>
      have skipped : bodied (m :: rest) = bodied rest := by simp [bodied, hasBody]
      rw [methods_bodiless hasBody, skipped]
      exact ih start parts
    | some body =>
      have kept : bodied (m :: rest) = m :: bodied rest := by simp [bodied, hasBody]
      have ends := method_abreast ((Signatures.Agrees.refl s).served owner m) hasBody _ _ start
      rw [kept, List.map_cons]
      constructor
      · rintro ⟨c', run⟩
        obtain ⟨part, n, others, head, tail, rfl⟩ := (methods_cons_ok_iff hasBody ..).mp run
        have own : alone s owner m = some part := by
          rw [alone_eq_some_iff hasBody]
          rw [head] at ends
          generalize (method m body).run (.within s owner) = first at ends ⊢
          cases ends with
          | ok same _ => exact ⟨_, by rw [same]⟩
        rw [own, List.map_cons, (ih (method_leaves start head) others).mp ⟨c', tail⟩]
      · intro each
        cases parts with
        | nil => cases each
        | cons part others =>
          obtain ⟨own, later⟩ := List.cons.inj each
          obtain ⟨n, ran⟩ := (alone_eq_some_iff hasBody part).mp own
          rw [ran] at ends
          cases head : (method m body).run c with
          | error e n' =>
            rw [head] at ends
            cases ends
          | ok part' n' =>
            rw [head] at ends
            cases ends with
            | ok same _ =>
              obtain ⟨c', tail⟩ := (ih (method_leaves start head) others).mpr later
              exact ⟨c', (methods_cons_ok_iff hasBody ..).mpr
                ⟨part', n', others, head, tail, by rw [same]⟩⟩

end Check

theorem Verdict.ofUnit_ok_iff_alone {u : CompilationUnit} {cls : Class}
    (single : u.classes = [cls]) (s : Signatures) (v : Verdict) :
    ofUnit s u = .ok v ↔ ∃ parts,
      (Check.bodied cls.methods).map (Check.alone s cls.name) = parts.map some ∧
      v = ofMethods cls.name parts := by
  have each (parts : List Derivation) := Check.methods_ok_iff_alone cls.methods
    (Checker.within_abreast s s cls.name) parts
  rw [ofUnit_single single]
  constructor
  · intro well
    cases run : (Check.methods cls.methods).run (.within s cls.name) with
    | error e c =>
      rw [run] at well
      cases well
    | ok parts c =>
      rw [run] at well
      cases well
      exact ⟨parts, (each parts).mp ⟨c, run⟩, rfl⟩
  · rintro ⟨parts, same, rfl⟩
    obtain ⟨c, run⟩ := (each parts).mpr same
    rw [run]

theorem Tag.isVoid_allVoid (tags : List Tag) : (allVoid tags).isVoid = tags.all isVoid := by
  unfold allVoid
  cases tags.all isVoid <;> rfl

theorem Verdict.wellTyped_ofMethods (owner : String) (parts : List Derivation) :
    (ofMethods owner parts).wellTyped = parts.all (·.tag.isVoid) := by
  simp [ofMethods, Derivation.ofParts, Tag.isVoid_allVoid, Function.comp_def]

/-- The tree of a verdict has one group for the class, and in it the trees of the methods with a
body in order, each the one that the method has by itself. -/
structure Verdict.Methodwise (v : Verdict) (s : Signatures) (cls : Class)
    (parts : List Derivation) : Prop where
  alone : (Check.bodied cls.methods).map (Check.alone s cls.name) = parts.map some
  grouped : ∃ group, v.root.children = [group] ∧
    group.children = if parts = [] then [.trivial] else parts.map (·.tree)

theorem Verdict.methodwise_ofMethods {s : Signatures} {cls : Class} {parts : List Derivation}
    (alone : (Check.bodied cls.methods).map (Check.alone s cls.name) = parts.map some) :
    (ofMethods cls.name parts).Methodwise s cls parts := by
  refine ⟨alone, (Derivation.ofParts ("class " ++ cls.name) parts).tree, rfl, ?_⟩
  simp only [Derivation.ofParts, Obligation.children_ofChildren, List.map_eq_nil_iff]

/-- The methods of a reordered class derive the same, in the other order. -/
theorem Class.Reorders.alone {cls cls' : Class} (r : cls.Reorders cls') {s t : Signatures}
    (agrees : t.Agrees s) {parts : List Derivation}
    (each : (Check.bodied cls.methods).map (Check.alone s cls.name) = parts.map some) :
    ∃ parts' : List Derivation, parts'.Perm parts ∧
      (Check.bodied cls'.methods).map (Check.alone t cls'.name) = parts'.map some := by
  have erased (all : List Method) : (Check.bodied all).map (Check.alone s cls.name) =
      (Check.bodied (all.map Method.erase)).map (Check.alone s cls.name) := by
    rw [Check.bodied_erase, List.map_map]
    exact List.map_congr_left fun m _ => (Check.alone_erase m).symm
  have perm : ((Check.bodied cls'.methods).map (Check.alone t cls'.name)).Perm
      (parts.map some) := by
    rw [← each, r.name, List.map_congr_left fun m _ => Check.alone_agrees agrees m,
      erased cls'.methods, erased cls.methods]
    exact (r.methods.filter _).map _
  have found : Relation.Comp (fun all parts => all = parts.map some) List.Perm
      ((Check.bodied cls'.methods).map (Check.alone t cls'.name)) parts := by
    rw [List.eq_map_comp_perm]
    exact perm
  obtain ⟨parts', same, permuted⟩ := found
  exact ⟨parts', permuted, same⟩

/-- A unit of one class is checked method by method. With its members in another order it has the
same record, is found well typed exactly if it was before, and has the same trees in the other
order. -/
theorem methods_checked_alone (u : CompilationUnit) {cls : Class} {s : Signatures} {v : Verdict}
    (single : u.classes = [cls]) (collected : Signatures.ofUnit u = .ok s)
    (checked : Verdict.ofUnit s u = .ok v) :
    ∃ parts, v.Methodwise s cls parts ∧ ∀ u' cls', u'.classes = [cls'] →
      u'.imports.map Import.erase = u.imports.map Import.erase → cls.Reorders cls' →
      ∃ s', Signatures.ofUnit u' = .ok s' ∧ s'.Agrees s ∧ ∀ t, t.Agrees s →
        ∃ v' parts', Verdict.ofUnit t u' = .ok v' ∧ v'.wellTyped = v.wellTyped ∧
          v'.Methodwise t cls' parts' ∧ parts'.Perm parts ∧
          ∀ m m', m'.erase = m.erase →
            Check.alone t cls'.name m' = Check.alone s cls.name m := by
  have member : cls ∈ u.classes := single ▸ List.mem_singleton_self cls
  obtain ⟨supported, rfl⟩ := Signatures.ofUnit_class collected member
  obtain ⟨parts, each, rfl⟩ := (Verdict.ofUnit_ok_iff_alone single _ v).mp checked
  refine ⟨parts, Verdict.methodwise_ofMethods each, ?_⟩
  intro u' cls' single' imports r
  have noImports : u'.imports = [] := by
    have none := ((Signatures.ofUnit_ok_iff u _).mp collected).1.imports
    rw [none, List.map_nil, List.map_eq_nil_iff] at imports
    exact imports
  have supported' : u'.Supported := by
    refine ⟨noImports, by simp [single'], ?_⟩
    rw [single', List.forall_mem_singleton]
    exact r.supported supported
  have collected' : Signatures.ofUnit u' = .ok cls'.signatures := by
    rw [Signatures.ofUnit_ok_iff, single']
    exact ⟨supported', (Signatures.append_empty _).symm⟩
  refine ⟨_, collected', r.agrees supported, ?_⟩
  intro t agrees
  obtain ⟨parts', perm, each'⟩ := r.alone agrees each
  refine ⟨_, parts', (Verdict.ofUnit_ok_iff_alone single' t _).mpr ⟨parts', each', rfl⟩, ?_,
    Verdict.methodwise_ofMethods each', perm, ?_⟩
  · rw [Verdict.wellTyped_ofMethods, Verdict.wellTyped_ofMethods, perm.all_eq]
  · intro m m' same
    rw [← Check.alone_erase, same, Check.alone_erase, Check.alone_agrees agrees, r.name]

/-- Two fields and two methods change places. -/
theorem methods_checked_alone_sample :
    let field (name : String) : Field :=
      ⟨[], ⟨.primitive .int, .unknown⟩, [⟨name, none, .unknown⟩], .unknown⟩
    let first := Method.procedure "m" [] [.declare (.primitive .int) "x" (.name "a" .unknown)]
    let second := Method.procedure "n" [⟨"p", ⟨.simple "C", .unknown⟩, .unknown⟩]
      [.declare (.simple "C") "x" (.name "p" .unknown)]
    let cls : Class := ⟨"C", [], [field "a", field "b"], [first, second], [], .unknown⟩
    let cls' : Class := ⟨"C", [], [field "b", field "a"], [second, first], [], .unknown⟩
    let u : CompilationUnit := ⟨none, [], [cls], .unknown⟩
    let u' : CompilationUnit := ⟨none, [], [cls'], .unknown⟩
    ∃ s v, Signatures.ofUnit u = .ok s ∧ Verdict.ofUnit s u = .ok v ∧ cls.Reorders cls' ∧
      ∃ parts, v.Methodwise s cls parts ∧
        ∃ s' v' parts', Signatures.ofUnit u' = .ok s' ∧ s'.Agrees s ∧
          Verdict.ofUnit s' u' = .ok v' ∧ v'.wellTyped = v.wellTyped ∧
          v'.Methodwise s' cls' parts' ∧ parts'.Perm parts := by
  intro field first second cls cls' u u'
  have reorders : cls.Reorders cls' := ⟨rfl, rfl, rfl, .swap _ _ [], .swap _ _ []⟩
  have well : (Verdict.ofUnit cls.signatures u).isOk = true := by cbv
  obtain ⟨v, checked⟩ := Run.exists_of_isOk well
  have collected : Signatures.ofUnit u = .ok cls.signatures := rfl
  obtain ⟨parts, methodwise, others⟩ := methods_checked_alone u rfl collected checked
  obtain ⟨s', collected', agrees, verdicts⟩ := others u' cls' rfl rfl reorders
  obtain ⟨v', parts', checked', same, methodwise', perm, _⟩ := verdicts s' agrees
  exact ⟨_, v, collected, checked, reorders, parts, methodwise, s', v', parts', collected', agrees,
    checked', same, methodwise', perm⟩

end Javelet
