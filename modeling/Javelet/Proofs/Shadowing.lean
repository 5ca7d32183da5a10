import Javelet.Scopes

/-! No name that has a type is ever hidden. Whatever is opened, closed and bound, a name has its
type from one layer of the chain at most, so the order of looking it up does not matter. -/
namespace Javelet

/-- One operation on a chain of scopes. -/
inductive ScopeStep where
  | push
  | pop
  | bind (name : String) (tag : Tag) (position : Position)

/-- The name is bound here, and to more than an error. -/
def Frame.Gives (frame : Frame) (name : String) (tag : Tag) : Prop :=
  frame.lookup name = some tag ∧ tag ≠ .error

namespace Scopes

/-- A binding that is refused changes nothing. -/
def step (scopes : Scopes) : ScopeStep → Scopes
  | .push => scopes.push
  | .pop => scopes.pop
  | .bind name tag position => (scopes.bind name tag position).toOption.getD scopes

def run (scopes : Scopes) (steps : List ScopeStep) : Scopes := steps.foldl step scopes

/-- What names are looked up in: the scopes from the innermost on, and last what the class
declares. -/
def layers (scopes : Scopes) : List Frame := scopes.frames ++ [scopes.globals.types]

/-- A name that a layer gives a type is bound in no layer inside of it, not even to an error. The
other way round is allowed: a layer may give a type to a name that is an error further out. -/
def Unhidden (layers : List Frame) : Prop :=
  layers.Pairwise fun inner outer => ∀ name tag, outer.Gives name tag → inner.lookup name = none

theorem typeOf_eq_layers (scopes : Scopes) (name : String) :
    scopes.typeOf name = (scopes.layers.findSome? (·.lookup name)).getD .error := by
  have outermost :
      [scopes.globals.types].findSome? (·.lookup name) = scopes.globals.type? name := by
    rw [List.findSome?_cons, List.findSome?_nil, Signatures.type?]
    cases scopes.globals.types.lookup name <;> rfl
  rw [typeOf, layers, List.findSome?_append, outermost]

/-- Where nothing is hidden, every layer that gives the name a type is the first to bind it. -/
theorem Unhidden.findSome? {layers : List Frame} (unhidden : Unhidden layers) {layer : Frame}
    (member : layer ∈ layers) {name : String} {tag : Tag} (gives : layer.Gives name tag) :
    layers.findSome? (·.lookup name) = some tag := by
  induction layers with
  | nil => cases member
  | cons inner outer ih =>
    obtain ⟨apart, rest⟩ := List.pairwise_cons.mp unhidden
    rw [List.findSome?_cons]
    obtain rfl | further := List.mem_cons.mp member
    · rw [gives.1]
    · rw [apart layer further name tag gives]
      exact ih rest further

theorem Unhidden.typeOf {scopes : Scopes} (unhidden : Unhidden scopes.layers) {layer : Frame}
    (member : layer ∈ scopes.layers) {name : String} {tag : Tag} (gives : layer.Gives name tag) :
    scopes.typeOf name = tag := by
  rw [typeOf_eq_layers, unhidden.findSome? member gives, Option.getD_some]

theorem typeOf_eq_error_of_layers {scopes : Scopes} {name : String}
    (untyped : ∀ layer ∈ scopes.layers, ∀ tag, ¬ layer.Gives name tag) :
    scopes.typeOf name = .error := by
  rw [typeOf_eq_layers]
  cases found : scopes.layers.findSome? (·.lookup name) with
  | none => rfl
  | some tag =>
    obtain ⟨layer, member, bound⟩ := List.exists_of_findSome?_eq_some found
    by_cases proper : tag = .error
    · rw [proper, Option.getD_some]
    · exact absurd ⟨bound, proper⟩ (untyped layer member tag)

theorem unhidden_push {scopes : Scopes} (unhidden : Unhidden scopes.layers) :
    Unhidden scopes.push.layers := by
  apply List.pairwise_cons.mpr
  exact ⟨fun outer _ name tag _ => List.lookup_nil, unhidden⟩

theorem unhidden_pop {scopes : Scopes} (unhidden : Unhidden scopes.layers) :
    Unhidden scopes.pop.layers := by
  apply List.Pairwise.sublist _ unhidden
  exact (List.tail_sublist scopes.frames).append_right _

/-- A free name has its type from no layer, so it can be bound without hiding one. -/
theorem unhidden_bind {scopes next : Scopes} {name : String} {tag : Tag} {position : Position}
    (unhidden : Unhidden scopes.layers) (bound : scopes.bind name tag position = .ok next) :
    Unhidden next.layers := by
  obtain ⟨free, frame, outer, here, rfl⟩ := (bind_eq_ok_iff ..).mp bound
  have old : scopes.layers = frame :: (outer ++ [scopes.globals.types]) := by
    rw [layers, here, List.cons_append]
  have before := unhidden
  rw [old] at before
  obtain ⟨apart, rest⟩ := List.pairwise_cons.mp before
  refine List.pairwise_cons.mpr ⟨?_, rest⟩
  intro layer further other type gives
  have distinct : other ≠ name := by
    rintro rfl
    have visible := unhidden.typeOf (old ▸ List.mem_cons_of_mem _ further) gives
    exact gives.2 (visible.symm.trans free)
  rw [List.lookup_cons, beq_eq_false_iff_ne.mpr distinct]
  exact apart layer further other type gives

theorem step_bind_cases (scopes : Scopes) (name : String) (tag : Tag) (position : Position) :
    scopes.step (.bind name tag position) = scopes ∨
      scopes.bind name tag position = .ok (scopes.step (.bind name tag position)) := by
  cases bound : scopes.bind name tag position with
  | ok next => exact .inr (by rw [step, bound, Except.toOption, Option.getD_some])
  | error e => exact .inl (by rw [step, bound, Except.toOption, Option.getD_none])

theorem step_globals (scopes : Scopes) (s : ScopeStep) :
    (scopes.step s).globals = scopes.globals := by
  cases s with
  | push => rfl
  | pop => rfl
  | bind name tag position =>
    obtain same | bound := scopes.step_bind_cases name tag position
    · rw [same]
    · obtain ⟨_, _, _, _, next⟩ := (bind_eq_ok_iff ..).mp bound
      rw [next]

theorem step_unhidden {scopes : Scopes} (unhidden : Unhidden scopes.layers) (s : ScopeStep) :
    Unhidden (scopes.step s).layers := by
  cases s with
  | push => exact unhidden_push unhidden
  | pop => exact unhidden_pop unhidden
  | bind name tag position =>
    obtain same | bound := scopes.step_bind_cases name tag position
    · rw [same]
      exact unhidden
    · exact unhidden_bind unhidden bound

theorem run_unhidden {scopes : Scopes} (unhidden : Unhidden scopes.layers)
    (steps : List ScopeStep) :
    Unhidden (scopes.run steps).layers ∧ (scopes.run steps).globals = scopes.globals := by
  induction steps generalizing scopes with
  | nil => exact ⟨unhidden, rfl⟩
  | cons s rest ih =>
    obtain ⟨after, globals⟩ := ih (step_unhidden unhidden s)
    exact ⟨after, globals.trans (step_globals scopes s)⟩

theorem Unhidden.unique {layers : List Frame} (unhidden : Unhidden layers) {i j : Nat}
    {layer other : Frame} (here : layers[i]? = some layer) (there : layers[j]? = some other)
    {name : String} {tag type : Tag} (gives : layer.Gives name tag) (also : other.Gives name type) :
    i = j := by
  have ordered := List.pairwise_iff_getElem.mp unhidden
  obtain ⟨inI, rfl⟩ := List.getElem?_eq_some_iff.mp here
  obtain ⟨inJ, rfl⟩ := List.getElem?_eq_some_iff.mp there
  obtain before | same | after := Nat.lt_trichotomy i j
  · have unbound := ordered i j inI inJ before name type also
    rw [gives.1] at unbound
    cases unbound
  · exact same
  · have unbound := ordered j i inJ inI after name tag gives
    rw [also.1] at unbound
    cases unbound

end Scopes

/-- After any operations on a fresh chain: a name with a declared type is bound in no scope, a name
with a type in one scope is bound in no scope inside of it, so at most one layer gives a name its
type, and looking the name up finds it. -/
theorem scopes_never_hide (globals : Signatures) (steps : List ScopeStep) :
    let scopes := Scopes.run { globals } steps
    scopes.globals = globals ∧
    (∀ name tag, Frame.Gives globals.types name tag →
      ∀ frame ∈ scopes.frames, frame.lookup name = none) ∧
    (∀ (i j : Nat) (inner outer : Frame), i < j → scopes.frames[i]? = some inner →
      scopes.frames[j]? = some outer → ∀ name tag, outer.Gives name tag →
      inner.lookup name = none) ∧
    (∀ (i j : Nat) (layer other : Frame), scopes.layers[i]? = some layer →
      scopes.layers[j]? = some other → ∀ name tag type, layer.Gives name tag →
      other.Gives name type → i = j) ∧
    ∀ name, (∀ layer ∈ scopes.layers, ∀ tag, layer.Gives name tag → scopes.typeOf name = tag) ∧
      ((∀ layer ∈ scopes.layers, ∀ tag, ¬ layer.Gives name tag) → scopes.typeOf name = .error) := by
  intro scopes
  have fresh : Scopes.Unhidden (Scopes.layers { globals }) := List.pairwise_singleton _ _
  obtain ⟨unhidden, same⟩ := Scopes.run_unhidden fresh steps
  obtain ⟨frames, _, across⟩ := List.pairwise_append.mp unhidden
  refine ⟨same, ?_, ?_, ?_, ?_⟩
  · intro name tag gives frame member
    refine across frame member _ (List.mem_singleton_self _) name tag ?_
    rw [same]
    exact gives
  · intro i j inner outer further here there
    obtain ⟨inI, rfl⟩ := List.getElem?_eq_some_iff.mp here
    obtain ⟨inJ, rfl⟩ := List.getElem?_eq_some_iff.mp there
    exact List.pairwise_iff_getElem.mp frames i j inI inJ further
  · intro i j layer other here there name tag type gives also
    exact unhidden.unique here there gives also
  · intro name
    exact ⟨fun layer member tag gives => unhidden.typeOf member gives,
      Scopes.typeOf_eq_error_of_layers⟩

/-- A name that is an error in the outer scope gets a type in the inner one, then in the outer one,
and after that no other. -/
theorem scopes_never_hide_sample :
    let bind (tag : Tag) : ScopeStep := .bind "x" tag .unknown
    let steps := [.push, bind .error, .push, bind .int, .pop, bind .boolean, .push, bind .int]
    let scopes := Scopes.run { globals := .mk [("C.x", .int)] [] } steps
    scopes.frames = [[], [("x", .boolean), ("x", .error)]] ∧ scopes.typeOf "x" = .boolean ∧
      ∀ frame ∈ scopes.frames, frame.lookup "C.x" = none := by
  intro bind steps scopes
  have kept := scopes_never_hide (.mk [("C.x", .int)] []) steps
  refine ⟨rfl, ?_, ?_⟩
  · exact (kept.2.2.2.2 "x").1 [("x", .boolean), ("x", .error)] (by decide) .boolean
      ⟨rfl, by decide⟩
  · exact kept.2.1 "C.x" .int ⟨rfl, by decide⟩

end Javelet
