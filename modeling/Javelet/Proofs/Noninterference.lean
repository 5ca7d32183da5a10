import Javelet.Proofs.Acceptance
import Javelet.Proofs.Extent
import Javelet.Proofs.Independence
import Javelet.Proofs.Partition
import Javelet.Proofs.Relevance

/-! Fields do not interfere with the check of methods. Members are on record under names with a dot,
and the names in a source have none, so that a record tells a method nothing but what is said of the
method itself. -/
namespace Javelet
open Run (SameAnswer)

def Undotted (name : String) : Prop := '.' ∉ name.toList

theorem Lexeme.undotted_of_isWord {cs : List Char} (word : isWord cs = true) : '.' ∉ cs := by
  cases cs with
  | nil => cases word
  | cons c rest =>
    rw [isWord, Bool.and_eq_true, List.all_eq_true] at word
    intro member
    obtain rfl | later := List.mem_cons.mp member
    · exact absurd word.1 (by decide)
    · exact absurd (word.2 _ later) (by decide)

/-- The names that the scanner finds have no dot. -/
theorem Token.undotted_of_scan {source file : String} {tokens : List Token}
    (scanned : scan source file = .ok tokens) :
    ∀ t ∈ tokens, t.kind = .identifier → Undotted t.value := by
  obtain ⟨l, _, rfl⟩ := exists_layout scanned
  obtain ⟨spelled, all, each⟩ := l.tokens_spelled file 0
  rw [all]
  intro t member name
  obtain own | ending := List.mem_append.mp member
  · obtain ⟨before, s, after, _, rfl⟩ := each t own
    have written := spelledBy_text s file (0 + Text.byteLength before)
    have plain : (s.token file (0 + Text.byteLength before)).kind ≠ .string := by
      rw [name]
      decide
    have text := written.value
    rw [if_neg plain] at text
    rw [Undotted, ← text]
    exact Lexeme.undotted_of_isWord (written.identifier.mp name).1
  · rw [List.mem_singleton] at ending
    rw [ending] at name
    cases name

/-- What holds of the names ahead, holds of the names of a part that is laid there. -/
theorem Outline.Laid.spells {P : String → Prop} {o : Outline} {c c' : Cursor} (laid : o.Laid c c')
    (names : ∀ t ∈ c.ahead, t.kind = .identifier → P t.value) : o.Spells P := by
  induction o using Outline.induct generalizing c c' with
  | step o ih =>
    constructor
    · intro name member
      obtain ⟨a, leads, sort, rfl⟩ := laid.fits.names name member
      have inside := a.ahead_ne_nil (by simp [sort])
      obtain ⟨t, rest, here⟩ := List.exists_cons_of_ne_nil inside
      have current : a.current = t := by simp [Cursor.current, here]
      rw [Cursor.kind, current] at sort
      rw [current]
      exact names t (leads.ahead_subset t (by simp [here])) sort
    · intro row listed part member
      obtain ⟨a, b, before, own, _⟩ := (laid.rows row listed).exists_of_mem part member
      have ahead := fun t later => names t (before.ahead_subset t later)
      exact ih row listed part member own ahead

theorem Outline.Spells.imp {P Q : String → Prop} {o : Outline} (spelled : o.Spells P)
    (imp : ∀ name, P name → Q name) : o.Spells Q := by
  induction o using Outline.induct with
  | step o ih =>
    constructor
    · exact fun name member => imp name (spelled.names name member)
    · intro row listed part member
      exact ih row listed part member (spelled.parts row listed part member)

/-- The names in the classes of a source have no dot. -/
theorem CompilationUnit.spells_undotted {source file : String} {u : CompilationUnit}
    (parsed : ofSource source file = .ok u) :
    ∀ cls ∈ u.classes, cls.outline.Spells Undotted := by
  obtain ⟨tokens, scanned, read⟩ := (Run.except_bind_ok_iff ..).mp parsed
  obtain ⟨c', run⟩ := exists_run_of_ofTokens read
  obtain ⟨_, rows⟩ := Parser.compilationUnit_rows .standard run
  have classes := rows _ (List.mem_cons_of_mem _ List.mem_cons_self)
  intro cls member
  obtain ⟨a, b, before, laid, _⟩ := classes.exists_of_mem _ (List.mem_map_of_mem member)
  apply laid.spells
  intro t ahead name
  have listed := Cursor.mem_of_mem_ofTokens (before.ahead_subset t ahead)
  exact Token.undotted_of_scan scanned t listed name

theorem Signatures.not_undotted_memberName (owner member : String) :
    ¬Undotted (memberName owner member) := by
  simp [Undotted, memberName]

/-- A name without a dot is not on record. -/
theorem Class.type?_of_undotted {c : Class} (supported : c.Supported) {name : String}
    (undotted : Undotted name) : c.signatures.type? name = none := by
  rw [Signatures.type?_eq_none_iff, (recorded supported).keys, List.mem_map]
  rintro ⟨member, _, rfl⟩
  exact Signatures.not_undotted_memberName c.name member undotted

/-- What two classes have on record about a method that both have. -/
theorem Class.servedAlike {cls cls' : Class} (supported : cls.Supported)
    (supported' : cls'.Supported) (name : cls.name = cls'.name)
    (methods : cls.methods.map Method.erase = cls'.methods.map Method.erase)
    (spelled : cls.outline.Spells Undotted) {m : Method} (member : m ∈ cls.methods) :
    m.ServedAlike cls.signatures cls'.signatures cls.name := by
  have agree (name : String) (undotted : Undotted name) :
      cls.signatures.AgreeAt cls'.signatures name := by
    rw [Signatures.AgreeAt, type?_of_undotted supported undotted,
      type?_of_undotted supported' undotted]
  have erased := List.mem_map_of_mem (f := Method.erase) member
  rw [methods] at erased
  obtain ⟨m', member', same⟩ := List.mem_map.mp erased
  have sameName : m'.name = m.name := congrArg (·.name) same
  have sameType : m'.type.shape = m.type.shape := congrArg (·.type.shape) same
  have sameParameters : Parameter.tags m'.parameters = Parameter.tags m.parameters := by
    rw [← Parameter.tags_erase, ← Parameter.tags_erase m.parameters]
    exact congrArg (fun m => Parameter.tags m.parameters) same
  rw [outline_eq] at spelled
  have own := spelled.parts _ (List.mem_cons_of_mem _ List.mem_cons_self) _
    (List.mem_map_of_mem member)
  have known := parameters_of_method supported member
  have known' := parameters_of_method supported' member'
  rw [sameParameters, sameName, ← name] at known'
  constructor
  · rw [known, known']
  · obtain ⟨tag, typed⟩ := Option.isSome_iff_exists.mp (supported.methods m member).type
    have here := ((recorded supported).types _ tag).mpr (.inr ⟨m, member, rfl, typed⟩)
    have there := ((recorded supported').types _ tag).mpr
      (.inr ⟨m', member', rfl, sameType ▸ typed⟩)
    rw [sameName, ← name] at there
    exact here.trans there.symm
  · intro entries found entry listed
    cases known.symm.trans found
    have names := Parameter.names_tags (supported.methods m member).parameters
    have written := List.mem_map_of_mem (f := Prod.fst) listed
    rw [names] at written
    obtain ⟨p, parameter, same⟩ := List.mem_map.mp written
    have part := own.parts _ List.mem_cons_self _ (List.mem_map_of_mem parameter)
    exact agree _ (same ▸ part.names p.name (List.mem_singleton_self _))
  · exact ⟨agree _ (by unfold Undotted; decide), agree _ (by unfold Undotted; decide)⟩
  · intro b hasBody
    have part := own.parts _ (List.mem_cons_of_mem _ List.mem_cons_self) b.outline
      (by simp [hasBody])
    exact part.imp agree

/-- A unit with nothing but the methods of a class. -/
def Class.bare (cls : Class) : CompilationUnit :=
  ⟨none, [], [⟨cls.name, [], [], cls.methods, [], .unknown⟩], .unknown⟩

theorem Verdict.ofUnit_bare {u : CompilationUnit} {cls : Class} (single : u.classes = [cls])
    (s : Signatures) : ofUnit s cls.bare = ofUnit s u := by
  rw [ofUnit_single single, ofUnit_single rfl]

theorem Class.erase_bare {cls cls' : Class} (name : cls.name = cls'.name)
    (methods : cls.methods.map Method.erase = cls'.methods.map Method.erase) :
    cls.bare.erase = cls'.bare.erase := by
  simp [bare, CompilationUnit.erase, erase, eraseAll, name, methods]

/-- If the unit of a source and another have classes of the same name with the same methods, they
get the same verdict with the same tree, or end in errors of the same cause, however they differ in
the package, in the modifiers of the class and in its fields. -/
theorem fields_never_interfere (source file : String) {u u' : CompilationUnit} {cls cls' : Class}
    {s s' : Signatures} (parsed : CompilationUnit.ofSource source file = .ok u)
    (collected : Signatures.ofUnit u = .ok s) (collected' : Signatures.ofUnit u' = .ok s')
    (single : u.classes = [cls]) (single' : u'.classes = [cls']) (name : cls.name = cls'.name)
    (methods : cls.methods.map Method.erase = cls'.methods.map Method.erase) :
    (∃ v, Verdict.ofUnit s u = .ok v ∧ Verdict.ofUnit s' u' = .ok v) ∨
    ∃ cause position position', Verdict.ofUnit s u = .error ⟨cause, position⟩ ∧
      Verdict.ofUnit s' u' = .error ⟨cause, position'⟩ := by
  have member : cls ∈ u.classes := single ▸ List.mem_singleton_self cls
  have member' : cls' ∈ u'.classes := single' ▸ List.mem_singleton_self cls'
  obtain ⟨supported, rfl⟩ := Signatures.ofUnit_class collected member
  obtain ⟨supported', rfl⟩ := Signatures.ofUnit_class collected' member'
  have spelled := CompilationUnit.spells_undotted parsed cls member
  have records : Verdict.ofUnit cls.signatures u = Verdict.ofUnit cls'.signatures u :=
    Verdict.ofUnit_served single fun _ listed =>
      Class.servedAlike supported supported' name methods spelled listed
  have answers := Verdict.ofUnit_same cls'.signatures (Class.erase_bare name methods)
  rw [Verdict.ofUnit_bare single, Verdict.ofUnit_bare single', ← records] at answers
  generalize Verdict.ofUnit cls.signatures u = answer at answers
  generalize Verdict.ofUnit cls'.signatures u' = answer' at answers
  cases answers with
  | ok equal => exact .inl ⟨_, rfl, by rw [equal]⟩
  | error causes => exact .inr ⟨_, _, _, rfl, by rw [causes]⟩

/-- The same method in a class with a field, and in one that is public, in a package and without
fields. -/
theorem fields_never_interfere_sample :
    let method := Method.procedure "m" [⟨"b", ⟨.simple "C", .unknown⟩, .unknown⟩]
      [.declare (.simple "C") "c" (.name "b" .unknown)]
    let cls' : Class := ⟨"C", [.publicAccess], [], [method], [], .unknown⟩
    let u' : CompilationUnit := ⟨some "p", [], [cls'], .unknown⟩
    ∃ u cls s s',
      CompilationUnit.ofSource "class C\x7bC a=d;void m(C b)\x7bC c=b;\x7d\x7d" "a" = .ok u ∧
      Signatures.ofUnit u = .ok s ∧ Signatures.ofUnit u' = .ok s' ∧ u.classes = [cls] ∧
      cls.name = cls'.name ∧ cls.methods.map Method.erase = cls'.methods.map Method.erase ∧
      ((∃ v, Verdict.ofUnit s u = .ok v ∧ Verdict.ofUnit s' u' = .ok v) ∨
        ∃ cause position position', Verdict.ofUnit s u = .error ⟨cause, position⟩ ∧
          Verdict.ofUnit s' u' = .error ⟨cause, position'⟩) := by
  intro method cls' u'
  have read : (do
      let u ← CompilationUnit.ofSource "class C\x7bC a=d;void m(C b)\x7bC c=b;\x7d\x7d" "a"
      let _ ← Signatures.ofUnit u
      return u.classes.map fun cls => (cls.name, cls.methods.map Method.erase)) =
      Except.ok [(cls'.name, cls'.methods.map Method.erase)] := by cbv
  obtain ⟨u, parsed, further⟩ := (Run.except_bind_ok_iff ..).mp read
  obtain ⟨s, collected, only⟩ := (Run.except_bind_ok_iff ..).mp further
  obtain ⟨cls, single, same⟩ := List.map_eq_singleton_iff.mp (Except.ok.inj only)
  obtain ⟨name, methods⟩ := Prod.mk.inj same
  exact ⟨u, cls, s, _, parsed, collected, rfl, single, name, methods,
    fields_never_interfere _ "a" parsed collected rfl single rfl name methods⟩

end Javelet
