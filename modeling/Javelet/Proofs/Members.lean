import Javelet.Proofs.Bindings
import Javelet.Proofs.Erasure
import Javelet.Proofs.Run
import Javelet.Proofs.Written
import Javelet.Signatures.Collect
import Mathlib.Data.List.Nodup

namespace Javelet

namespace Signatures

def keys (s : Signatures) : List String := s.types.map Prod.fst

/-- Both on record, the first one's members before the second's. -/
def append (s t : Signatures) : Signatures := ⟨s.types ++ t.types, s.parameters ++ t.parameters⟩

def concat (all : List Signatures) : Signatures := all.foldr append {}

theorem append_empty (s : Signatures) : s.append {} = s := by
  simp [append]

theorem empty_append (s : Signatures) : ({} : Signatures).append s = s := rfl

theorem append_assoc (s t u : Signatures) : (s.append t).append u = s.append (t.append u) := by
  simp [append]

theorem concat_append (a b : List Signatures) : concat (a ++ b) = (concat a).append (concat b) := by
  induction a with
  | nil => rfl
  | cons s rest ih =>
    calc concat (s :: rest ++ b) = s.append (concat (rest ++ b)) := rfl
      _ = s.append ((concat rest).append (concat b)) := by rw [ih]
      _ = (concat (s :: rest)).append (concat b) := (append_assoc ..).symm

theorem keys_append (s t : Signatures) : (s.append t).keys = s.keys ++ t.keys := by
  simp [keys, append]

/-- One more member keeps the names apart exactly if its own is not taken. -/
theorem nodup_keys_append_one {s : Signatures} (distinct : s.keys.Nodup) (key : String) (tag : Tag)
    (parameters : List (String × List (String × Tag))) :
    (s.append ⟨[(key, tag)], parameters⟩).keys.Nodup ↔ key ∉ s.keys := by
  have one : (s.append ⟨[(key, tag)], parameters⟩).keys = s.keys ++ [key] := keys_append ..
  rw [one, List.nodup_append]
  constructor
  · rintro ⟨_, _, apart⟩ taken
    exact apart key taken key (List.mem_singleton_self key) rfl
  · intro free
    refine ⟨distinct, by simp, ?_⟩
    rintro a ha b hb rfl
    exact free (List.mem_singleton.mp hb ▸ ha)

theorem types_concat (all : List Signatures) : (concat all).types = all.flatMap (·.types) := by
  induction all with
  | nil => rfl
  | cons s rest ih => rw [List.flatMap_cons, ← ih]; rfl

theorem parameters_concat (all : List Signatures) :
    (concat all).parameters = all.flatMap (·.parameters) := by
  induction all with
  | nil => rfl
  | cons s rest ih => rw [List.flatMap_cons, ← ih]; rfl

theorem keys_concat (all : List Signatures) : (concat all).keys = all.flatMap keys := by
  rw [keys, types_concat, List.map_flatMap]
  rfl

theorem type?_eq_none_iff (s : Signatures) (name : String) : s.type? name = none ↔ name ∉ s.keys :=
  Bindings.lookup_eq_none_iff s.types name

theorem memberName_injective (owner : String) : Function.Injective (memberName owner) := by
  intro a b h
  exact (String.append_right_inj _).mp h

end Signatures

def OnlyVisibility (modifiers : List Modifier) : Prop := ∀ m ∈ modifiers, m.isVisibility = true

structure Field.Supported (f : Field) : Prop where
  modifiers : OnlyVisibility f.modifiers
  single : ∃ declarator, f.declarators = [declarator]
  type : f.type.shape.tag?.isSome = true

structure Method.Supported (m : Method) : Prop where
  modifiers : OnlyVisibility m.modifiers
  type : m.type.shape.resultTag?.isSome = true
  parameters : ∀ p ∈ m.parameters, p.type.shape.tag?.isSome = true

def Class.memberNames (c : Class) : List String :=
  c.fields.flatMap (fun f => f.declarators.map (·.name)) ++ c.methods.map (·.name)

structure Class.Supported (c : Class) : Prop where
  modifiers : OnlyVisibility c.modifiers
  flat : c.nested = []
  fields : ∀ f ∈ c.fields, f.Supported
  methods : ∀ m ∈ c.methods, m.Supported
  distinct : c.memberNames.Nodup

structure CompilationUnit.Supported (u : CompilationUnit) : Prop where
  imports : u.imports = []
  single : u.classes.length ≤ 1
  classes : ∀ c ∈ u.classes, c.Supported

/-- What a field puts on record. -/
def Field.signatures (owner : String) (f : Field) : Signatures :=
  match f.binding? with
  | some (declarator, tag) => ⟨[(Signatures.memberName owner declarator.name, tag)], []⟩
  | none => {}

theorem Field.signatures_eq {f : Field} {declarator : Declarator} {tag : Tag}
    (single : f.declarators = [declarator]) (typed : f.type.shape.tag? = some tag)
    (owner : String) :
    f.signatures owner = ⟨[(Signatures.memberName owner declarator.name, tag)], []⟩ := by
  have known := (Declarator.typed?_eq_some_iff ..).mpr ⟨single, typed⟩
  simp only [signatures, binding?, known]

def Parameter.tags (written : List Parameter) : List (String × Tag) :=
  written.filterMap fun p => p.type.shape.tag?.map fun tag => (p.name, tag)

def Method.signatures (owner : String) (m : Method) : Signatures :=
  let name := Signatures.memberName owner m.name
  match m.type.shape.resultTag? with
  | some tag => ⟨[(name, tag)], [(name, Parameter.tags m.parameters)]⟩
  | none => {}

theorem Method.signatures_eq {m : Method} {tag : Tag} (typed : m.type.shape.resultTag? = some tag)
    (owner : String) :
    m.signatures owner = ⟨[(Signatures.memberName owner m.name, tag)],
      [(Signatures.memberName owner m.name, Parameter.tags m.parameters)]⟩ := by
  simp only [signatures, typed]

def Class.signatures (c : Class) : Signatures :=
  Signatures.concat
    (c.fields.map (Field.signatures c.name) ++ c.methods.map (Method.signatures c.name))

theorem Field.supported_erase (f : Field) : f.erase.Supported ↔ f.Supported := by
  constructor
  · rintro ⟨modifiers, ⟨_, single⟩, type⟩
    obtain ⟨declarator, single, _⟩ := List.map_eq_singleton_iff.mp single
    exact ⟨modifiers, ⟨declarator, single⟩, type⟩
  · rintro ⟨modifiers, ⟨declarator, single⟩, type⟩
    exact ⟨modifiers, ⟨declarator.erase, by rw [erase, single, List.map_singleton]⟩, type⟩

theorem Method.supported_erase (m : Method) : m.erase.Supported ↔ m.Supported := by
  have same : (∀ p ∈ m.parameters.map Parameter.erase, p.type.shape.tag?.isSome = true) ↔
      ∀ p ∈ m.parameters, p.type.shape.tag?.isSome = true := List.forall_mem_map
  constructor
  · rintro ⟨modifiers, type, parameters⟩
    exact ⟨modifiers, type, same.mp parameters⟩
  · rintro ⟨modifiers, type, parameters⟩
    exact ⟨modifiers, type, same.mpr parameters⟩

theorem Field.signatures_erase (owner : String) (f : Field) :
    f.erase.signatures owner = f.signatures owner := by
  obtain ⟨modifiers, type, declarators, span⟩ := f
  match declarators with
  | [] => rfl
  | [d] =>
    simp only [signatures, binding?, Declarator.typed?, erase, TypeExpr.erase, Declarator.erase,
      List.map_cons, List.map_nil]
    cases type.shape.tag? <;> rfl
  | _ :: _ :: _ => rfl

theorem Parameter.tags_erase (written : List Parameter) :
    tags (written.map erase) = tags written := by
  simp [tags, List.filterMap_map, Function.comp_def, erase, TypeExpr.erase]

theorem Method.signatures_erase (owner : String) (m : Method) :
    m.erase.signatures owner = m.signatures owner := by
  simp only [signatures, erase, TypeExpr.erase, Parameter.tags_erase]

namespace Collector

theorem requireVisibility_ok_iff (modifiers : List Modifier) (position : Position)
    (s t : Signatures) (u : Unit) :
    (requireVisibility modifiers position).run s = .ok u t ↔ OnlyVisibility modifiers ∧ t = s := by
  unfold requireVisibility
  split
  · rename_i m found
    have hidden := List.find?_some found
    have member := List.mem_of_find?_eq_some found
    rw [Run.throw_ok_iff]
    constructor
    · exact False.elim
    · rintro ⟨only, _⟩
      simp [only m member] at hidden
  · rename_i none
    have only : OnlyVisibility modifiers := by simpa [OnlyVisibility] using none
    simp [only, eq_comm]

theorem declare_ok_iff (name : String) (tag : Tag) (position : Position) (s t : Signatures)
    (u : Unit) : (declare name tag position).run s = .ok u t ↔
      name ∉ s.keys ∧ t = { s with types := s.types ++ [(name, tag)] } := by
  unfold declare
  rw [Run.bind_of_ok (EStateM.run_get s), ← Signatures.type?_eq_none_iff]
  cases s.type? name with
  | none => simp [eq_comm]
  | some existing => simp

/-- The members of a kind are put on record one after the other, and it ends well exactly if the
language has each of them and no name comes twice. -/
theorem forM_ok_iff {α : Type} (step : α → Collector Unit) (supported : α → Prop)
    (declared : α → Signatures)
    (one : ∀ a s t, s.keys.Nodup → ((step a).run s = .ok () t ↔
      supported a ∧ (s.append (declared a)).keys.Nodup ∧ t = s.append (declared a)))
    (all : List α) (s t : Signatures) (distinct : s.keys.Nodup) :
    (all.forM step).run s = .ok () t ↔ (∀ a ∈ all, supported a) ∧
      (s.append (.concat (all.map declared))).keys.Nodup ∧
      t = s.append (.concat (all.map declared)) := by
  induction all generalizing s with
  | nil =>
    have empty : s.append (.concat ([].map declared)) = s := Signatures.append_empty s
    rw [empty]
    simp [distinct, eq_comm]
  | cons a rest ih =>
    have grouped : s.append (.concat ((a :: rest).map declared)) =
        (s.append (declared a)).append (.concat (rest.map declared)) :=
      (Signatures.append_assoc ..).symm
    rw [grouped]
    refine (Run.bind_ok_iff (step a) (fun _ => rest.forM step) s t ()).trans ?_
    constructor
    · rintro ⟨_, m, first, others⟩
      obtain ⟨here, fresh, rfl⟩ := (one a s m distinct).mp first
      obtain ⟨there, nodup, rfl⟩ := (ih _ fresh).mp others
      exact ⟨List.forall_mem_cons.mpr ⟨here, there⟩, nodup, rfl⟩
    · rintro ⟨each, nodup, rfl⟩
      obtain ⟨here, there⟩ := List.forall_mem_cons.mp each
      have fresh : (s.append (declared a)).keys.Nodup := by
        rw [Signatures.keys_append] at nodup
        exact (List.nodup_append.mp nodup).1
      exact ⟨(), _, (one a s _ distinct).mpr ⟨here, fresh, rfl⟩,
        (ih _ fresh).mpr ⟨there, nodup, rfl⟩⟩

theorem field_ok_iff (owner : String) (f : Field) (s t : Signatures) (distinct : s.keys.Nodup) :
    (field owner f).run s = .ok () t ↔ f.Supported ∧
      (s.append (f.signatures owner)).keys.Nodup ∧ t = s.append (f.signatures owner) := by
  unfold field
  simp only [Run.bind_ok_iff, requireVisibility_ok_iff, Run.ofExcept_ok_iff, declare_ok_iff,
    TypeExpr.resolve_value_ok_iff, Field.declarator, Declarator.single_ok_iff]
  constructor
  · rintro ⟨_, _, ⟨only, rfl⟩, tag, _, ⟨typed, rfl⟩, declarator, _, ⟨single, rfl⟩, free, rfl⟩
    rw [Field.signatures_eq single typed, Signatures.nodup_keys_append_one distinct]
    exact ⟨⟨only, ⟨declarator, single⟩, by simp [typed]⟩, free, by simp [Signatures.append]⟩
  · rintro ⟨⟨only, ⟨declarator, single⟩, known⟩, nodup, rfl⟩
    obtain ⟨tag, typed⟩ := Option.isSome_iff_exists.mp known
    rw [Field.signatures_eq single typed] at nodup ⊢
    have free := (Signatures.nodup_keys_append_one distinct ..).mp nodup
    exact ⟨(), s, ⟨only, rfl⟩, tag, s, ⟨typed, rfl⟩, declarator, s, ⟨single, rfl⟩, free,
      by simp [Signatures.append]⟩

theorem parameters_ok_iff (written : List Parameter) (s t : Signatures)
    (known : List (String × Tag)) :
    (parameters written).run s = .ok known t ↔
      (∀ p ∈ written, p.type.shape.tag?.isSome = true) ∧ t = s ∧
      known = Parameter.tags written := by
  unfold parameters
  induction written generalizing known with
  | nil =>
    rw [List.mapM_nil, Run.pure_ok_iff]
    simp [Parameter.tags, and_comm]
  | cons p rest ih =>
    simp only [List.mapM_cons, Run.bind_ok_iff, Run.pure_ok_iff, Run.ofExcept_ok_iff,
      TypeExpr.resolve_value_ok_iff]
    constructor
    · rintro ⟨_, _, ⟨tag, _, ⟨typed, rfl⟩, rfl, rfl⟩, others, _, run, rfl, rfl⟩
      obtain ⟨each, rfl, rfl⟩ := (ih others).mp run
      exact ⟨List.forall_mem_cons.mpr ⟨by simp [typed], each⟩, rfl, by simp [Parameter.tags, typed]⟩
    · rintro ⟨each, rfl, rfl⟩
      obtain ⟨here, there⟩ := List.forall_mem_cons.mp each
      obtain ⟨tag, typed⟩ := Option.isSome_iff_exists.mp here
      exact ⟨(p.name, tag), t, ⟨tag, t, ⟨typed, rfl⟩, rfl, rfl⟩, Parameter.tags rest, t,
        (ih _).mpr ⟨there, rfl, rfl⟩, by simp [Parameter.tags, typed], rfl⟩

theorem method_ok_iff (owner : String) (m : Method) (s t : Signatures) (distinct : s.keys.Nodup) :
    (method owner m).run s = .ok () t ↔ m.Supported ∧
      (s.append (m.signatures owner)).keys.Nodup ∧ t = s.append (m.signatures owner) := by
  unfold method
  simp only [Run.bind_ok_iff, requireVisibility_ok_iff, Run.ofExcept_ok_iff, declare_ok_iff,
    TypeExpr.resolve_result_ok_iff, parameters_ok_iff, EStateM.run_modify,
    EStateM.Result.ok.injEq, true_and]
  constructor
  · rintro ⟨_, _, ⟨only, rfl⟩, tag, _, ⟨typed, rfl⟩, _, _, ⟨each, rfl, rfl⟩, _, _, ⟨free, rfl⟩, rfl⟩
    rw [Method.signatures_eq typed, Signatures.nodup_keys_append_one distinct]
    exact ⟨⟨only, by simp [typed], each⟩, free, rfl⟩
  · rintro ⟨⟨only, known, each⟩, nodup, rfl⟩
    obtain ⟨tag, typed⟩ := Option.isSome_iff_exists.mp known
    rw [Method.signatures_eq typed] at nodup ⊢
    have free := (Signatures.nodup_keys_append_one distinct ..).mp nodup
    exact ⟨(), s, ⟨only, rfl⟩, tag, s, ⟨typed, rfl⟩, _, s, ⟨each, rfl, rfl⟩, (), _, ⟨free, rfl⟩,
      rfl⟩

end Collector

/-- The members' keys are their names under the class. -/
theorem Class.keys_signatures {c : Class} (fields : ∀ f ∈ c.fields, f.Supported)
    (methods : ∀ m ∈ c.methods, m.Supported) :
    c.signatures.keys = c.memberNames.map (Signatures.memberName c.name) := by
  have ofFields : c.fields.flatMap (fun f => (f.signatures c.name).keys) =
      (c.fields.flatMap fun f => f.declarators.map (·.name)).map
        (Signatures.memberName c.name) := by
    rw [List.map_flatMap]
    apply List.flatMap_congr
    intro f hf
    obtain ⟨_, ⟨declarator, single⟩, known⟩ := fields f hf
    obtain ⟨tag, typed⟩ := Option.isSome_iff_exists.mp known
    simp [Field.signatures_eq single typed, single, Signatures.keys]
  have ofMethods : c.methods.flatMap (fun m => (m.signatures c.name).keys) =
      (c.methods.map (·.name)).map (Signatures.memberName c.name) := by
    rw [List.map_map, List.map_eq_flatMap]
    apply List.flatMap_congr
    intro m hm
    obtain ⟨tag, typed⟩ := Option.isSome_iff_exists.mp (methods m hm).type
    simp [Method.signatures_eq typed, Signatures.keys]
  rw [signatures, Signatures.keys_concat, List.flatMap_append, List.flatMap_map, List.flatMap_map,
    ofFields, ofMethods, memberNames, List.map_append]

namespace Collector

theorem requireNoNested_ok_iff (c : Class) (s t : Signatures) (u : Unit) :
    (requireNoNested c).run s = .ok u t ↔ c.nested = [] ∧ t = s := by
  unfold requireNoNested
  cases c.nested with
  | nil => simp [eq_comm]
  | cons first rest => simp

theorem ofClass_ok_iff (c : Class) (t : Signatures) :
    (ofClass c).run {} = .ok () t ↔ c.Supported ∧ t = c.signatures := by
  have start : ({} : Signatures).keys.Nodup := List.nodup_nil
  have whole : c.signatures = (Signatures.concat (c.fields.map (Field.signatures c.name))).append
      (Signatures.concat (c.methods.map (Method.signatures c.name))) := Signatures.concat_append ..
  unfold ofClass
  simp only [Run.bind_ok_iff, requireVisibility_ok_iff, requireNoNested_ok_iff]
  constructor
  · rintro ⟨_, _, ⟨only, rfl⟩, _, _, ⟨flat, rfl⟩, _, m, onFields, onMethods⟩
    obtain ⟨fields, apart, rfl⟩ :=
      (forM_ok_iff _ _ _ (field_ok_iff c.name) c.fields _ m start).mp onFields
    obtain ⟨methods, nodup, rfl⟩ :=
      (forM_ok_iff _ _ _ (method_ok_iff c.name) c.methods _ t apart).mp onMethods
    rw [Signatures.empty_append, ← whole, Class.keys_signatures fields methods] at nodup
    exact ⟨⟨only, flat, fields, methods, List.Nodup.of_map _ nodup⟩, whole.symm⟩
  · rintro ⟨⟨only, flat, fields, methods, distinct⟩, rfl⟩
    have nodup : c.signatures.keys.Nodup := by
      rw [Class.keys_signatures fields methods]
      exact List.Nodup.map (Signatures.memberName_injective c.name) distinct
    have apart : (Signatures.concat (c.fields.map (Field.signatures c.name))).keys.Nodup := by
      rw [whole, Signatures.keys_append] at nodup
      exact (List.nodup_append.mp nodup).1
    have onFields := (forM_ok_iff _ _ _ (field_ok_iff c.name) c.fields _ _ start).mpr
      ⟨fields, apart, rfl⟩
    have onMethods := (forM_ok_iff _ _ _ (method_ok_iff c.name) c.methods _ _ apart).mpr
      ⟨methods, whole ▸ nodup, whole⟩
    exact ⟨(), {}, ⟨only, rfl⟩, (), {}, ⟨flat, rfl⟩, (), _, onFields, onMethods⟩

theorem requireNoImport_ok_iff (u : CompilationUnit) (s t : Signatures) (r : Unit) :
    (requireNoImport u).run s = .ok r t ↔ u.imports = [] ∧ t = s := by
  unfold requireNoImport
  cases u.imports with
  | nil => simp [eq_comm]
  | cons first rest => simp

theorem requireOneClass_ok_iff (u : CompilationUnit) (s t : Signatures) (r : Unit) :
    (requireOneClass u).run s = .ok r t ↔ u.classes.length ≤ 1 ∧ t = s := by
  unfold requireOneClass
  match u.classes with
  | [] => simp [eq_comm]
  | [_] => simp [eq_comm]
  | _ :: _ :: _ => simp

/-- At most one class is collected, into an empty record. -/
theorem classes_ok_iff {classes : List Class} (one : classes.length ≤ 1) (t : Signatures) :
    (classes.forM ofClass).run {} = .ok () t ↔ (∀ c ∈ classes, c.Supported) ∧
      t = Signatures.concat (classes.map Class.signatures) := by
  match classes with
  | [] => simp [Signatures.concat, eq_comm]
  | [c] =>
    have same : Signatures.concat ([c].map Class.signatures) = c.signatures :=
      Signatures.append_empty _
    rw [same, List.forall_mem_singleton, ← ofClass_ok_iff]
    refine (Run.bind_ok_iff (ofClass c) (fun _ => pure ()) {} t ()).trans ?_
    constructor
    · rintro ⟨_, m, run, ended⟩
      obtain ⟨_, rfl⟩ := (Run.pure_ok_iff ..).mp ended
      exact run
    · intro run
      exact ⟨(), t, run, rfl⟩
  | _ :: _ :: _ => simp at one

theorem unit_ok_iff (u : CompilationUnit) (t : Signatures) :
    (unit u).run {} = .ok () t ↔
      u.Supported ∧ t = Signatures.concat (u.classes.map Class.signatures) := by
  unfold unit
  simp only [Run.bind_ok_iff, requireNoImport_ok_iff, requireOneClass_ok_iff]
  constructor
  · rintro ⟨_, _, ⟨imports, rfl⟩, _, _, ⟨one, rfl⟩, run⟩
    obtain ⟨classes, rfl⟩ := (classes_ok_iff one t).mp run
    exact ⟨⟨imports, one, classes⟩, rfl⟩
  · rintro ⟨⟨imports, one, classes⟩, rfl⟩
    exact ⟨(), {}, ⟨imports, rfl⟩, (), {}, ⟨one, rfl⟩, (classes_ok_iff one _).mpr ⟨classes, rfl⟩⟩

end Collector

/-- `s` holds the members of the class and nothing else, each under its own name. -/
structure Class.Recorded (c : Class) (s : Signatures) : Prop where
  keys : s.keys = c.memberNames.map (Signatures.memberName c.name)
  types : ∀ key tag, s.type? key = some tag ↔
    (∃ f ∈ c.fields, ∃ declarator, f.declarators = [declarator] ∧
      key = Signatures.memberName c.name declarator.name ∧ f.type.shape.tag? = some tag) ∨
    ∃ m ∈ c.methods, key = Signatures.memberName c.name m.name ∧ m.type.shape.resultTag? = some tag
  parameterKeys : s.parameters.map Prod.fst =
    c.methods.map fun m => Signatures.memberName c.name m.name
  parameters : ∀ key known, s.parameters? key = some known ↔
    ∃ m ∈ c.methods, key = Signatures.memberName c.name m.name ∧
      List.Forall₂ (fun p entry => entry.1 = p.name ∧ p.type.shape.tag? = some entry.2)
        m.parameters known
  proper : ∀ entry ∈ s.types, entry.2 ≠ .error ∧ entry.2 ≠ .null
  properParameters : ∀ entry ∈ s.parameters, ∀ p ∈ entry.2,
    p.2 ≠ .error ∧ p.2 ≠ .null ∧ p.2 ≠ .void
  void : ∀ entry ∈ s.types, entry.2 = .void →
    ∃ m ∈ c.methods, entry.1 = Signatures.memberName c.name m.name

theorem Class.mem_types_iff {c : Class} (supported : c.Supported) (key : String) (tag : Tag) :
    (key, tag) ∈ c.signatures.types ↔
      (∃ f ∈ c.fields, ∃ declarator, f.declarators = [declarator] ∧
        key = Signatures.memberName c.name declarator.name ∧ f.type.shape.tag? = some tag) ∨
      ∃ m ∈ c.methods, key = Signatures.memberName c.name m.name ∧
        m.type.shape.resultTag? = some tag := by
  have ofField (f : Field) (hf : f ∈ c.fields) : (key, tag) ∈ (f.signatures c.name).types ↔
      ∃ declarator, f.declarators = [declarator] ∧
        key = Signatures.memberName c.name declarator.name ∧ f.type.shape.tag? = some tag := by
    obtain ⟨_, ⟨declarator, single⟩, known⟩ := supported.fields f hf
    obtain ⟨own, typed⟩ := Option.isSome_iff_exists.mp known
    simp [Field.signatures_eq single typed, single, typed, eq_comm]
  have ofMethod (m : Method) (hm : m ∈ c.methods) : (key, tag) ∈ (m.signatures c.name).types ↔
      key = Signatures.memberName c.name m.name ∧ m.type.shape.resultTag? = some tag := by
    obtain ⟨own, typed⟩ := Option.isSome_iff_exists.mp (supported.methods m hm).type
    simp [Method.signatures_eq typed, typed, eq_comm]
  rw [signatures, Signatures.types_concat, List.flatMap_append, List.mem_append,
    List.flatMap_map, List.flatMap_map, List.mem_flatMap, List.mem_flatMap]
  constructor
  · rintro (⟨f, hf, h⟩ | ⟨m, hm, h⟩)
    · exact .inl ⟨f, hf, (ofField f hf).mp h⟩
    · exact .inr ⟨m, hm, (ofMethod m hm).mp h⟩
  · rintro (⟨f, hf, h⟩ | ⟨m, hm, h⟩)
    · exact .inl ⟨f, hf, (ofField f hf).mpr h⟩
    · exact .inr ⟨m, hm, (ofMethod m hm).mpr h⟩

/-- On record are the parameter lists of the methods, in order. -/
theorem Class.parameters_signatures {c : Class} (supported : c.Supported) :
    c.signatures.parameters = c.methods.map fun m =>
      (Signatures.memberName c.name m.name, Parameter.tags m.parameters) := by
  have ofFields : c.fields.flatMap (fun f => (f.signatures c.name).parameters) = [] := by
    rw [List.flatMap_eq_nil_iff]
    intro f hf
    obtain ⟨_, ⟨declarator, single⟩, known⟩ := supported.fields f hf
    obtain ⟨own, typed⟩ := Option.isSome_iff_exists.mp known
    rw [Field.signatures_eq single typed]
  rw [signatures, Signatures.parameters_concat, List.flatMap_append, List.flatMap_map,
    List.flatMap_map, ofFields, List.nil_append, List.map_eq_flatMap]
  apply List.flatMap_congr
  intro m hm
  obtain ⟨own, typed⟩ := Option.isSome_iff_exists.mp (supported.methods m hm).type
  rw [Method.signatures_eq typed]

theorem Parameter.tags_eq_iff {written : List Parameter}
    (typed : ∀ p ∈ written, p.type.shape.tag?.isSome = true) (known : List (String × Tag)) :
    Parameter.tags written = known ↔
      List.Forall₂ (fun p entry => entry.1 = p.name ∧ p.type.shape.tag? = some entry.2)
        written known := by
  induction written generalizing known with
  | nil => simp [tags, eq_comm]
  | cons p rest ih =>
    obtain ⟨here, there⟩ := List.forall_mem_cons.mp typed
    obtain ⟨tag, hasTag⟩ := Option.isSome_iff_exists.mp here
    have first : tags (p :: rest) = (p.name, tag) :: tags rest := by simp [tags, hasTag]
    rw [first, List.forall₂_cons_left_iff]
    constructor
    · rintro rfl
      exact ⟨(p.name, tag), _, ⟨rfl, hasTag⟩, (ih there _).mp rfl, rfl⟩
    · rintro ⟨⟨name, own⟩, others, ⟨rfl, same⟩, below, rfl⟩
      rw [(ih there others).mpr below, Option.some.inj (hasTag.symm.trans same)]

theorem Parameter.names_tags {written : List Parameter}
    (typed : ∀ p ∈ written, p.type.shape.tag?.isSome = true) :
    (tags written).map Prod.fst = written.map (·.name) := by
  induction written with
  | nil => rfl
  | cons p rest ih =>
    obtain ⟨here, there⟩ := List.forall_mem_cons.mp typed
    obtain ⟨tag, hasTag⟩ := Option.isSome_iff_exists.mp here
    have first : tags (p :: rest) = (p.name, tag) :: tags rest := by simp [tags, hasTag]
    rw [first, List.map_cons, List.map_cons, ih there]

theorem Class.recorded {c : Class} (supported : c.Supported) : c.Recorded c.signatures := by
  have keys := keys_signatures supported.fields supported.methods
  have distinct : c.signatures.keys.Nodup := by
    rw [keys]
    exact List.Nodup.map (Signatures.memberName_injective c.name) supported.distinct
  have parameterKeys : c.signatures.parameters.map Prod.fst =
      c.methods.map fun m => Signatures.memberName c.name m.name := by
    rw [parameters_signatures supported, List.map_map]
    rfl
  have parametersDistinct : (c.signatures.parameters.map Prod.fst).Nodup := by
    have names : (c.methods.map (·.name)).Nodup := (List.nodup_append.mp supported.distinct).2.1
    have mapped := List.Nodup.map (Signatures.memberName_injective c.name) names
    rw [List.map_map] at mapped
    rw [parameterKeys]
    exact mapped
  refine ⟨keys, ?_, parameterKeys, ?_, ?_, ?_, ?_⟩
  · intro key tag
    rw [← mem_types_iff supported]
    exact Bindings.lookup_eq_some_iff_mem distinct key tag
  · intro key known
    rw [Signatures.parameters?, Bindings.lookup_eq_some_iff_mem parametersDistinct,
      parameters_signatures supported, List.mem_map]
    constructor
    · rintro ⟨m, hm, same⟩
      obtain ⟨rfl, tags⟩ := Prod.mk.inj same
      exact ⟨m, hm, rfl, (Parameter.tags_eq_iff (supported.methods m hm).parameters _).mp tags⟩
    · rintro ⟨m, hm, rfl, each⟩
      exact ⟨m, hm, by rw [(Parameter.tags_eq_iff (supported.methods m hm).parameters _).mpr each]⟩
  · rintro ⟨key, tag⟩ member
    obtain ⟨_, _, _, _, _, typed⟩ | ⟨_, _, _, typed⟩ := (mem_types_iff supported key tag).mp member
    · exact ⟨(TypeShape.tag?_proper typed).1, (TypeShape.tag?_proper typed).2.1⟩
    · exact TypeShape.resultTag?_proper typed
  · rw [parameters_signatures supported]
    rintro entry member p hp
    obtain ⟨m, _, rfl⟩ := List.mem_map.mp member
    obtain ⟨written, _, mapped⟩ := List.mem_filterMap.mp hp
    obtain ⟨tag, typed, rfl⟩ := Option.map_eq_some_iff.mp mapped
    exact TypeShape.tag?_proper typed
  · rintro ⟨key, tag⟩ member rfl
    obtain ⟨_, _, _, _, _, typed⟩ | ⟨m, hm, same, _⟩ := (mem_types_iff supported key _).mp member
    · exact absurd rfl (TypeShape.tag?_proper typed).2.2
    · exact ⟨m, hm, same⟩

theorem Signatures.ofUnit_ok_iff (u : CompilationUnit) (s : Signatures) :
    ofUnit u = .ok s ↔ u.Supported ∧ s = concat (u.classes.map Class.signatures) := by
  rw [← Collector.unit_ok_iff, ofUnit]
  cases (Collector.unit u).run {} with
  | ok r t => simp
  | error e t => simp

/-- With its single class, a unit's record is the class's own. -/
theorem Signatures.ofUnit_class {u : CompilationUnit} {s : Signatures} (h : ofUnit u = .ok s)
    {c : Class} (member : c ∈ u.classes) : c.Supported ∧ s = c.signatures := by
  obtain ⟨supported, rfl⟩ := (ofUnit_ok_iff u s).mp h
  have single := supported.single
  have alone : u.classes = [c] := by
    match hc : u.classes with
    | [] => simp [hc] at member
    | [other] => rw [hc, List.mem_singleton] at member; rw [member]
    | _ :: _ :: _ => simp [hc] at single
  refine ⟨supported.classes c member, ?_⟩
  rw [alone]
  exact append_empty c.signatures

/-- Collecting takes exactly the units of the language, and records exactly the members of their
class. -/
theorem collecting_exact (u : CompilationUnit) :
    ((∃ s, Signatures.ofUnit u = .ok s) ↔ u.Supported) ∧
    ∀ s, Signatures.ofUnit u = .ok s →
      (u.classes = [] → s = {}) ∧ ∀ c ∈ u.classes, c.Recorded s := by
  constructor
  · constructor
    · rintro ⟨s, h⟩
      exact ((Signatures.ofUnit_ok_iff u s).mp h).1
    · intro supported
      exact ⟨_, (Signatures.ofUnit_ok_iff u _).mpr ⟨supported, rfl⟩⟩
  · intro s h
    constructor
    · intro none
      obtain ⟨_, rfl⟩ := (Signatures.ofUnit_ok_iff u s).mp h
      rw [none]
      rfl
    · intro c member
      obtain ⟨supported, rfl⟩ := Signatures.ofUnit_class h member
      exact Class.recorded supported

theorem collecting_exact_sample : Signatures.ofUnit .sample = .ok .sample ∧
    ∃ c, CompilationUnit.sample.classes = [c] ∧ c.Recorded .sample :=
  ⟨rfl, _, rfl, ((collecting_exact .sample).2 .sample rfl).2 _ (List.mem_singleton_self _)⟩

end Javelet
