import Javelet.Proofs.Anatomy
import Javelet.Proofs.Writing

namespace Javelet

namespace Mark

/-- Several rows in front of a rest begin as one of them does, or else as the rest does. -/
theorem next_flatMap_ne {β : Type} {write : β → List Mark} {bs : List β} {rest : List Mark}
    {kind : Kind} (each : ∀ b ∈ bs, ∀ more, next (write b ++ more) ≠ kind)
    (after : next rest ≠ kind) : next (bs.flatMap write ++ rest) ≠ kind := by
  cases bs with
  | nil => exact after
  | cons b bs =>
    rw [List.flatMap_cons, List.append_assoc]
    exact each b (List.mem_cons_self ..) _

end Mark

theorem Token.value_of_name {t : Token} {text : String} (h : t.mark = .name text) :
    t.value = text := by
  unfold mark at h
  split at h <;> cases h
  rfl

theorem Token.value_of_number {t : Token} {text : String} (h : t.mark = .number text) :
    t.value = text := by
  unfold mark at h
  split at h <;> cases h
  rfl

namespace Parser

variable {α β γ δ : Type} {g : Grammar}

/-- In front of the marks and of a rest that can follow, the reader takes just the marks, and what
it makes of them is good. -/
def Reads (r : Parser α) (ms : List Mark) (follow : List Mark → Prop) (good : α → Prop) : Prop :=
  ∀ c rest, c.marks = ms ++ rest → follow rest →
    ∃ a c', r.run c = .ok a c' ∧ c'.marks = rest ∧ good a

def Anything : List Mark → Prop := fun _ => True

/-- Before a token of the kind. -/
def Before (kind : Kind) : List Mark → Prop := fun rest => Mark.next rest = kind

theorem Reads.imp {r : Parser α} {ms : List Mark} {follow : List Mark → Prop} {P Q : α → Prop}
    (h : Reads r ms follow P) (good : ∀ a, P a → Q a) : Reads r ms follow Q := by
  intro c rest here after
  obtain ⟨a, c', ran, left, made⟩ := h c rest here after
  exact ⟨a, c', ran, left, good a made⟩

theorem Reads.anywhere {r : Parser α} {ms : List Mark} {P : α → Prop} (h : Reads r ms Anything P)
    (follow : List Mark → Prop) : Reads r ms follow P :=
  fun c rest here _ => h c rest here trivial

theorem Reads.bind {r : Parser α} {f : α → Parser β} {ms ns : List Mark}
    {inner outer : List Mark → Prop} {P : α → Prop} {Q : β → Prop} (first : Reads r ms inner P)
    (follows : ∀ rest, outer rest → inner (ns ++ rest))
    (further : ∀ a, P a → Reads (f a) ns outer Q) : Reads (r >>= f) (ms ++ ns) outer Q := by
  intro c rest here after
  obtain ⟨a, m, ran, left, made⟩ :=
    first c (ns ++ rest) (by rw [here, List.append_assoc]) (follows rest after)
  obtain ⟨b, c', ranOn, leftOver, madeToo⟩ := further a made m rest left after
  exact ⟨b, c', by rw [Run.bind_of_ok ran, ranOn], leftOver, madeToo⟩

/-- A reader of one token can be followed by anything. -/
theorem Reads.cons {r : Parser α} {f : α → Parser β} {m : Mark} {ns : List Mark}
    {outer : List Mark → Prop} {P : α → Prop} {Q : β → Prop} (first : Reads r [m] Anything P)
    (further : ∀ a, P a → Reads (f a) ns outer Q) : Reads (r >>= f) (m :: ns) outer Q :=
  first.bind (fun _ _ => trivial) further

theorem Reads.skip {r : Parser α} {f : α → Parser β} {ns : List Mark}
    {inner outer : List Mark → Prop} {P : α → Prop} {Q : β → Prop} (first : Reads r [] inner P)
    (follows : ∀ rest, outer rest → inner (ns ++ rest))
    (further : ∀ a, P a → Reads (f a) ns outer Q) : Reads (r >>= f) ns outer Q :=
  first.bind follows further

theorem Reads.last {r : Parser α} {f : α → Parser β} {ms : List Mark}
    {outer : List Mark → Prop} {P : α → Prop} {Q : β → Prop} (first : Reads r ms outer P)
    (further : ∀ a, P a → Reads (f a) [] outer Q) : Reads (r >>= f) ms outer Q := by
  rw [← List.append_nil ms]
  exact first.bind (fun _ after => after) further

theorem Reads.map {r : Parser α} {f : α → β} {ms : List Mark} {follow : List Mark → Prop}
    {Q : β → Prop} (h : Reads r ms follow fun a => Q (f a)) : Reads (f <$> r) ms follow Q := by
  intro c rest here after
  obtain ⟨a, c', ran, left, made⟩ := h c rest here after
  exact ⟨f a, c', (Run.map_ok_iff ..).mpr ⟨a, ran, rfl⟩, left, made⟩

/-- Looking at the next kind shows what is to be read, or what follows. -/
theorem Reads.kind {f : Kind → Parser β} {ms : List Mark} {follow : List Mark → Prop}
    {Q : β → Prop} (h : ∀ rest, follow rest → Reads (f (Mark.next (ms ++ rest))) ms follow Q) :
    Reads (Parser.kind >>= f) ms follow Q := by
  intro c rest here after
  rw [Run.bind_of_ok (run_kind c), Cursor.kind_eq, here]
  exact h rest after c rest here after

theorem Reads.kind_nil {f : Kind → Parser β} {follow : List Mark → Prop} {Q : β → Prop}
    (h : ∀ rest, follow rest → Reads (f (Mark.next rest)) [] follow Q) :
    Reads (Parser.kind >>= f) [] follow Q :=
  .kind h

theorem Reads.kind_cons {f : Kind → Parser β} {m : Mark} {ms : List Mark}
    {follow : List Mark → Prop} {Q : β → Prop} (h : Reads (f m.kind) (m :: ms) follow Q) :
    Reads (Parser.kind >>= f) (m :: ms) follow Q :=
  .kind fun _ _ => h

theorem Reads.look {f : Cursor → Parser β} {ms : List Mark} {follow : List Mark → Prop}
    {Q : β → Prop}
    (h : ∀ c rest, c.marks = ms ++ rest → follow rest → Reads (f c) ms follow Q) :
    Reads (get >>= f) ms follow Q := by
  intro c rest here after
  rw [Run.bind_of_ok (EStateM.run_get c)]
  exact h c rest here after c rest here after

theorem pure_reads {a : α} {Q : α → Prop} (good : Q a) (follow : List Mark → Prop) :
    Reads (pure a) [] follow Q :=
  fun c _ here _ => ⟨a, c, rfl, here, good⟩

theorem spanFrom_reads {start : Position} {f : Span → β} {Q : β → Prop} (good : ∀ span, Q (f span))
    (follow : List Mark → Prop) : Reads (do return f (← spanFrom start)) [] follow Q :=
  fun c _ here _ => ⟨_, c, rfl, here, good _⟩

theorem position_reads : Reads position [] Anything fun _ => True :=
  fun c _ here _ => ⟨_, c, rfl, here, trivial⟩

theorem advance_reads (m : Mark) : Reads advance [m] Anything fun t => t.mark = m := by
  intro c rest here _
  refine ⟨_, _, run_advance c, ?_, c.current_mark here⟩
  rw [Cursor.marks_advance, here]
  rfl

theorem take_reads {m : Mark} {expectedKind : Kind} (same : m.kind = expectedKind)
    (otherwise : Parser Token) : Reads (take expectedKind otherwise) [m] Anything (·.mark = m) := by
  unfold take
  refine .kind_cons ?_
  rw [if_pos same]
  exact advance_reads m

theorem expectPunct_reads (p : Punct) : Reads (expectPunct p) [.punct p] Anything fun _ => True :=
  (take_reads rfl unexpected).imp fun _ _ => trivial

theorem refuse_reads (refused : Kind) (construct : String) :
    Reads (refuse refused construct) [] (fun rest => Mark.next rest ≠ refused) fun _ => True := by
  unfold refuse
  refine .kind_nil fun rest after => ?_
  rw [if_neg after]
  exact pure_reads trivial _

/-- Items are read one after the other, given as many rounds as there are tokens. -/
def ReadsRow (item : Parser (Option α)) (ms : List Mark) (follow : List Mark → Prop)
    (good : List α → Prop) : Prop :=
  ∀ n c rest, c.marks.length < n → c.marks = ms ++ rest → follow rest →
    ∃ as c', (upTo item n).run c = .ok as c' ∧ c'.marks = rest ∧ good as

theorem ReadsRow.nil {item : Parser (Option α)} {follow : List Mark → Prop} {Q : List α → Prop}
    (stops : Reads item [] follow (· = none)) (good : Q []) : ReadsRow item [] follow Q := by
  intro n c rest enough here after
  obtain ⟨n, rfl⟩ : ∃ k, n = k + 1 := ⟨n - 1, by omega⟩
  obtain ⟨_, c', ran, left, rfl⟩ := stops c rest here after
  exact ⟨[], c', by rw [upTo, Run.bind_of_ok ran]; rfl, left, good⟩

theorem ReadsRow.cons {item : Parser (Option α)} {ms ns : List Mark}
    {inner outer : List Mark → Prop} {view : α → γ} {value : γ} {P Q : List α → Prop}
    (own : Reads item ms inner fun r => r.map view = some value) (solid : ms ≠ [])
    (follows : ∀ rest, outer rest → inner (ns ++ rest)) (others : ReadsRow item ns outer P)
    (good : ∀ a as, view a = value → P as → Q (a :: as)) :
    ReadsRow item (ms ++ ns) outer Q := by
  intro n c rest enough here after
  obtain ⟨n, rfl⟩ : ∃ k, n = k + 1 := ⟨n - 1, by omega⟩
  rw [List.append_assoc] at here
  obtain ⟨r, m, ran, left, made⟩ := own c (ns ++ rest) here (follows rest after)
  obtain ⟨a, rfl, same⟩ := Option.map_eq_some_iff.mp made
  have taken := List.length_pos_iff.mpr solid
  rw [here, List.length_append, ← left] at enough
  obtain ⟨as, c', ranOthers, leftOver, madeOthers⟩ := others n m rest (by omega) left after
  refine ⟨a :: as, c', ?_, leftOver, good a as same madeOthers⟩
  rw [upTo, Run.bind_of_ok ran]
  dsimp only
  rw [Run.bind_of_ok ranOthers]
  rfl

theorem ReadsRow.many {item : Parser (Option α)} {ms : List Mark} {follow : List Mark → Prop}
    {Q : List α → Prop} (h : ReadsRow item ms follow Q) : Reads (many item) ms follow Q := by
  intro c rest here after
  unfold Parser.many
  rw [Run.bind_of_ok (EStateM.run_get c)]
  exact h _ c rest (by rw [Cursor.length_marks]; omega) here after

/-- What can follow an item of a row is what can begin one, or follow the row. -/
theorem many_reads {item : Parser (Option α)} {write : β → List Mark} {view : α → γ} {shown : β → γ}
    {inner outer : List Mark → Prop} (bs : List β) (stops : Reads item [] outer (· = none))
    (solid : ∀ b ∈ bs, write b ≠ []) (starts : ∀ b ∈ bs, ∀ rest, inner (write b ++ rest))
    (ends : ∀ rest, outer rest → inner rest)
    (each : ∀ b ∈ bs, Reads item (write b) inner fun r => r.map view = some (shown b)) :
    Reads (many item) (bs.flatMap write) outer fun as => as.map view = bs.map shown := by
  apply ReadsRow.many
  induction bs with
  | nil => exact .nil stops rfl
  | cons b bs ih =>
    obtain ⟨solidHere, solidOthers⟩ := List.forall_mem_cons.mp solid
    obtain ⟨_, startsOthers⟩ := List.forall_mem_cons.mp starts
    obtain ⟨own, others⟩ := List.forall_mem_cons.mp each
    rw [List.flatMap_cons]
    refine .cons own solidHere ?_ (ih solidOthers startsOthers others) fun a as same sames => ?_
    · intro rest after
      cases bs with
      | nil => exact ends rest after
      | cons next bs =>
        rw [List.flatMap_cons, List.append_assoc]
        exact startsOthers next (List.mem_cons_self ..) _
    · rw [List.map_cons, List.map_cons, same, sames]

/-- What goes on as a dotted name does not follow one. -/
def NotDotted : List Mark → Prop := fun rest =>
  ¬ (Mark.next rest = .punct .dot ∧ Mark.next (rest.drop 1) = .identifier)

theorem dottedName_stops : Reads dottedName [] NotDotted (· = none) := by
  unfold dottedName
  refine .look fun c rest here after => ?_
  rw [if_neg (by rw [Cursor.kind_eq, Cursor.kindAt_eq, here]; exact after)]
  exact pure_reads (by rfl) _

theorem dottedName_reads (name : String) :
    Reads dottedName [.punct .dot, .name name] Anything fun r => r.map id = some name := by
  unfold dottedName
  refine .look fun c rest here _ => ?_
  rw [if_pos (by rw [Cursor.kind_eq, Cursor.kindAt_eq, here]; exact ⟨rfl, rfl⟩)]
  refine .cons (advance_reads _) fun _ _ => ?_
  refine .last (advance_reads _) fun t named => ?_
  exact pure_reads (by rw [Token.value_of_name named]; rfl) _

theorem dottedNames_read (others : List String) :
    Reads (many dottedName) (others.flatMap fun part => [.punct .dot, .name part]) NotDotted
      (· = others) := by
  refine (many_reads others dottedName_stops (fun _ _ => List.cons_ne_nil _ _)
    (fun _ _ _ => trivial) (fun _ _ => trivial) fun part _ => dottedName_reads part).imp
    fun names same => ?_
  rwa [List.map_id, List.map_id'] at same

theorem qualifiedName_reads (first : String) (others : List String) :
    Reads qualifiedName (Mark.dotted (first :: others)) NotDotted
      (· = ".".intercalate (first :: others)) := by
  unfold qualifiedName
  refine .cons (take_reads rfl _) fun t named => ?_
  refine .last (dottedNames_read others) fun names same => ?_
  exact pure_reads (by rw [Token.value_of_name named, same]) _

theorem namedType_reads_simple (name : String) :
    Reads namedType (TypeShape.simple name).marks NotDotted (·.shape = .simple name) := by
  unfold namedType
  refine .cons (take_reads rfl _) fun t named => ?_
  refine .last (dottedNames_read []) ?_
  rintro _ rfl
  exact pure_reads (by rw [Token.value_of_name named]) _

theorem namedType_reads_qualified (first second : String) (others : List String) :
    Reads namedType (TypeShape.qualified (first :: second :: others)).marks NotDotted
      (·.shape = .qualified (first :: second :: others)) := by
  unfold namedType
  refine .cons (take_reads rfl _) fun t named => ?_
  refine .last (dottedNames_read (second :: others)) ?_
  rintro _ rfl
  exact pure_reads (by rw [Token.value_of_name named]) _

theorem primitiveType_reads (p : Primitive) :
    Reads primitiveType [.primitive p] Anything (·.shape = .primitive p) := by
  unfold primitiveType
  refine .kind_cons ?_
  refine .last (advance_reads _) fun t _ => ?_
  exact pure_reads (by rfl) _

theorem typeHead_reads {shape : TypeShape} (formed : shape.Formed)
    (element : shape.isArray = false) :
    Reads (typeHead .standard) shape.marks NotDotted (·.shape = shape) := by
  unfold typeHead
  cases shape with
  | primitive p =>
    exact .kind_cons <| (primitiveType_reads p).anywhere _
  | simple name => exact .kind_cons <| namedType_reads_simple name
  | qualified parts =>
    match parts, formed with
    | first :: second :: others, _ =>
      exact .kind_cons <| namedType_reads_qualified first second others
  | array => cases element

theorem typeSuffix_stops :
    Reads (typeSuffix .standard .lowest) [] (Before .identifier) (· = none) := by
  unfold typeSuffix
  refine .kind_nil fun rest after => ?_
  rw [show Mark.next rest = .identifier from after, if_neg (by decide)]
  exact pure_reads (by rfl) _

theorem typeSuffix_reads :
    Reads (typeSuffix .standard .lowest) [.punct .openBracket, .punct .closeBracket] Anything
      fun r => r.map id = some () := by
  unfold typeSuffix
  refine .kind_cons ?_
  rw [if_pos (by decide)]
  unfold brackets
  refine .map ?_
  refine .cons (expectPunct_reads _) fun _ _ => ?_
  refine .last (expectPunct_reads _) fun _ _ => ?_
  exact pure_reads (by rfl) _

theorem foldl_array_shape (units : List Unit) (head : TypeExpr) :
    (units.foldl (fun element _ => element.array) head).shape =
      head.shape.arrays units.length := by
  induction units generalizing head with
  | nil => rfl
  | cons _ units ih =>
    rw [List.foldl_cons, ih, TypeExpr.array, TypeShape.arrays_array]
    rfl

theorem typeExpr_reads {shape : TypeShape} (formed : shape.Formed) :
    Reads (typeExpr .standard .lowest) shape.marks (Before .identifier) (·.shape = shape) := by
  obtain ⟨element, n, rfl, head⟩ := shape.exists_arrays
  have suffixes := many_reads (List.replicate n ()) typeSuffix_stops
    (fun _ _ => List.cons_ne_nil _ _) (fun _ _ _ => trivial) (fun _ _ => trivial)
    fun _ _ => typeSuffix_reads
  rw [TypeShape.marks_arrays]
  unfold typeExpr
  refine (typeHead_reads ((TypeShape.formed_arrays ..).mp formed) head).bind ?_ fun t shape => ?_
  · -- brackets or a name: neither is a dot
    rintro rest after ⟨dot, _⟩
    cases n with
    | zero => exact absurd (after.symm.trans dot) nofun
    | succ n => cases dot
  · have same : (List.replicate n [Mark.punct .openBracket, .punct .closeBracket]).flatten =
        (List.replicate n ()).flatMap fun _ => [.punct .openBracket, .punct .closeBracket] := by
      rw [List.flatMap_def, List.map_replicate]
    rw [same]
    refine .last suffixes fun units read => ?_
    refine pure_reads ?_ _
    have count := congrArg List.length read
    rw [List.length_map, List.length_map, List.length_replicate] at count
    rw [foldl_array_shape, count, shape]

theorem primary_reads {e : Expression} (formed : e.Formed) :
    Reads primary [e.mark] Anything (·.erase = e.erase) := by
  intro c rest here _
  have mark := c.current_mark here
  have kind := c.current.mark_kind
  have left : c.advance.marks = rest := by rw [Cursor.marks_advance, here]; rfl
  unfold primary
  rw [Run.bind_of_ok (EStateM.run_get c)]
  rw [mark] at kind
  cases e with
  | number value text span =>
    have said := Token.value_of_number mark
    refine ⟨.number value text c.current.span, c.advance, ?_, left, rfl⟩
    simp only [← kind, Expression.mark, Mark.kind, said,
      show Number.value? text = some value from formed]
    rfl
  | name text span =>
    have said := Token.value_of_name mark
    refine ⟨.name text c.current.span, c.advance, ?_, left, rfl⟩
    simp only [← kind, Expression.mark, Mark.kind, said]
    rfl
  | boolean value span =>
    refine ⟨.boolean value c.current.span, c.advance, ?_, left, rfl⟩
    cases value <;> simp only [← kind, Expression.mark, Mark.kind] <;> rfl
  | null span =>
    refine ⟨.null c.current.span, c.advance, ?_, left, rfl⟩
    simp only [← kind, Expression.mark, Mark.kind]
    rfl

theorem operand_reads {e : Expression} (formed : e.Formed) :
    Reads (operand .standard) [e.mark] Anything (·.erase = e.erase) := by
  unfold operand
  refine .kind_cons ?_
  have rule : Grammar.standard.operand e.mark.kind = some .primary := by
    unfold Expression.mark
    split <;> rfl
  rw [rule]
  exact primary_reads formed

/-- What follows a variable: the next one, or the end of the declaration. -/
def EndsDeclarator : List Mark → Prop := fun rest =>
  Before (.punct .comma) rest ∨ Before (.punct .semicolon) rest

theorem expression_reads {e : Expression} (formed : e.Formed) :
    Reads (expression .standard .lowest) [e.mark] EndsDeclarator (·.erase = e.erase) := by
  unfold expression
  refine .last ((operand_reads formed).anywhere _) ?_
  intro operand same
  refine .kind_nil fun rest after => ?_
  obtain next | next := after
  all_goals
    rw [show Mark.next rest = _ from next, if_neg (by decide)]
    exact pure_reads (by exact same) _

theorem declarator_reads {d : Declarator} (formed : d.Formed) :
    Reads (declarator .standard) d.marks EndsDeclarator (·.erase = d.erase) := by
  obtain ⟨name, value, span⟩ := d
  unfold declarator
  refine .cons (take_reads rfl _) fun t named => ?_
  have said := Token.value_of_name named
  cases value with
  | none =>
    refine .skip (refuse_reads _ _) ?_ fun _ _ => ?_
    · rintro rest (next | next) array
      · exact absurd (next.symm.trans array) nofun
      · exact absurd (next.symm.trans array) nofun
    · have absent : Reads (initializer .standard) [] EndsDeclarator (· = none) := by
        unfold initializer
        refine .kind_nil fun rest after => ?_
        obtain next | next := after
        all_goals
          rw [show Mark.next rest = _ from next, if_neg nofun]
          exact pure_reads (by rfl) _
      refine .last absent ?_
      rintro _ rfl
      exact spanFrom_reads (fun _ => by rw [Declarator.erase, Declarator.erase, said]) _
  | some e =>
    refine .skip (refuse_reads _ _) (fun _ _ => nofun) fun _ _ => ?_
    have present : Reads (initializer .standard) [.punct .assign, e.mark] EndsDeclarator
        (·.map Expression.erase = some e.erase) := by
      unfold initializer
      refine .kind_cons ?_
      rw [if_pos (by rfl)]
      refine .cons (advance_reads _) fun _ _ => .map ?_
      exact (expression_reads (formed e rfl)).imp fun _ same => by simp [same]
    refine .last present fun value same => ?_
    exact spanFrom_reads (fun _ => by
      simp only [Declarator.erase, said, same, Option.map_some]) _

theorem nextDeclarator_stops :
    Reads (nextDeclarator .standard) [] (Before (.punct .semicolon)) (· = none) := by
  unfold nextDeclarator
  refine .kind_nil fun rest after => ?_
  rw [show Mark.next rest = _ from after, if_neg nofun]
  exact pure_reads (by rfl) _

theorem nextDeclarator_reads {d : Declarator} (formed : d.Formed) :
    Reads (nextDeclarator .standard) (.punct .comma :: d.marks) EndsDeclarator
      fun r => r.map Declarator.erase = some d.erase := by
  unfold nextDeclarator
  refine .kind_cons ?_
  rw [if_pos (by rfl)]
  refine .cons (advance_reads _) fun _ _ => .map ?_
  exact (declarator_reads formed).imp fun _ same => by simp [same]

theorem declarators_read {ds : List Declarator} (formed : Declarator.ListFormed ds) :
    Reads (declarators .standard) (Declarator.listMarks ds) (Before (.punct .semicolon))
      fun as => as.map Declarator.erase = ds.map Declarator.erase := by
  obtain ⟨some, each⟩ := formed
  cases ds with
  | nil => exact absurd rfl some
  | cons first others =>
    obtain ⟨own, formedOthers⟩ := List.forall_mem_cons.mp each
    have rest := many_reads others nextDeclarator_stops (fun _ _ => List.cons_ne_nil _ _)
      (fun _ _ _ => .inl rfl) (fun _ after => .inr after)
      fun d member => nextDeclarator_reads (formedOthers d member)
    have split : Declarator.listMarks (first :: others) =
        first.marks ++ others.flatMap fun d => .punct .comma :: d.marks := by
      rw [Declarator.listMarks, List.map_cons, Mark.listed, List.flatMap_map]
    rw [split]
    unfold declarators
    refine (declarator_reads own).bind ?_ fun a same => ?_
    · intro rest after
      cases others with
      | nil => exact .inr after
      | cons => exact .inl rfl
    · refine .last rest fun as sames => ?_
      exact pure_reads (by rw [List.map_cons, same, sames, List.map_cons]) _

/-- The variables begin with a name, and no parenthesis or brace is behind it. -/
theorem listMarks_front {ds : List Declarator} (formed : Declarator.ListFormed ds)
    (rest : List Mark) :
    let ms := Declarator.listMarks ds ++ .punct .semicolon :: rest
    Mark.next ms = .identifier ∧ Mark.next (ms.drop 1) ≠ .punct .openParen ∧
      Mark.next (ms.drop 1) ≠ .punct .openCurly := by
  obtain ⟨some, _⟩ := formed
  cases ds with
  | nil => exact absurd rfl some
  | cons first others =>
    obtain ⟨name, value, span⟩ := first
    refine ⟨rfl, ?_⟩
    cases value with
    | some e => exact ⟨nofun, nofun⟩
    | none =>
      cases others with
      | nil => exact ⟨nofun, nofun⟩
      | cons => exact ⟨nofun, nofun⟩

theorem localDeclaration_reads {d : LocalDeclaration} (formed : d.Formed) :
    Reads (localDeclaration .standard) d.marks Anything (·.erase = d.erase) := by
  obtain ⟨⟨shape, position⟩, ds, span⟩ := d
  obtain ⟨typeFormed, listFormed⟩ := formed
  rw [LocalDeclaration.marks, List.append_assoc]
  unfold localDeclaration
  refine .skip position_reads (fun _ _ => trivial) fun start _ => ?_
  refine (typeExpr_reads typeFormed).bind ?_ fun t same => ?_
  · intro rest _
    rw [List.append_assoc]
    exact (listMarks_front listFormed rest).1
  · refine (declarators_read listFormed).bind (fun _ _ => rfl) fun as sames => ?_
    refine .last (expectPunct_reads _) fun _ _ => ?_
    exact spanFrom_reads (fun _ => by
      simp only [LocalDeclaration.erase, TypeExpr.erase, same, sames]) _

theorem skipDotted_dotted (names : List String) (kinds : List Kind) :
    skipDotted ((names.flatMap fun name => [Mark.punct .dot, .name name]).map Mark.kind ++ kinds) =
      skipDotted kinds := by
  induction names with
  | nil => rfl
  | cons name names ih =>
    rw [List.flatMap_cons, List.map_append, List.append_assoc]
    exact ih

theorem skipBrackets_arrays (n : Nat) (kinds : List Kind) :
    skipBrackets ((List.replicate n [Mark.punct .openBracket, .punct .closeBracket]).flatten.map
      Mark.kind ++ kinds) = skipBrackets kinds := by
  induction n with
  | zero => rfl
  | succ n ih =>
    rw [List.replicate_succ, List.flatten_cons, List.map_append, List.append_assoc]
    exact ih

/-- What stands between the name of a type and the name behind the type. -/
theorem arrays_front (n : Nat) {rest : List Mark} (named : Mark.next rest = .identifier) :
    let ms := (List.replicate n [Mark.punct .openBracket, .punct .closeBracket]).flatten ++ rest
    Mark.next ms ≠ .punct .openParen ∧
      (skipBrackets (skipDotted (ms.map Mark.kind))).head? = some .identifier := by
  obtain ⟨m, more, rfl⟩ : ∃ m more, rest = m :: more := by
    cases rest with
    | nil => cases named
    | cons m more => exact ⟨m, more, rfl⟩
  have named : m.kind = .identifier := named
  cases n with
  | zero =>
    dsimp only
    rw [List.replicate_zero, List.flatten_nil, List.nil_append, Mark.next_cons, List.map_cons,
      named]
    exact ⟨nofun, rfl⟩
  | succ n =>
    refine ⟨nofun, ?_⟩
    have skipped := skipBrackets_arrays (n + 1) ((m :: more).map Mark.kind)
    rw [← List.map_append] at skipped
    refine (congrArg List.head? skipped).trans ?_
    rw [List.map_cons, named]
    rfl

/-- A written type opens with a primitive or a name. Before the name of a variable it has the shape
of a declaration, and no parenthesis stands behind its first name. -/
theorem type_front {shape : TypeShape} (formed : shape.Formed) {rest : List Mark}
    (named : Mark.next rest = .identifier) :
    (∃ p, Mark.next (shape.marks ++ rest) = .primitive p) ∨
      Mark.next (shape.marks ++ rest) = .identifier ∧
      Mark.next ((shape.marks ++ rest).drop 1) ≠ .punct .openParen ∧
      startsDeclaration ((shape.marks ++ rest).map Mark.kind) = true := by
  obtain ⟨element, n, rfl, head⟩ := shape.exists_arrays
  obtain ⟨behind, skipped⟩ := arrays_front n named
  rw [TypeShape.formed_arrays] at formed
  rw [TypeShape.marks_arrays, List.append_assoc]
  generalize (List.replicate n [Mark.punct .openBracket, .punct .closeBracket]).flatten ++ rest =
    tail at *
  cases element with
  | primitive p => exact .inl ⟨p, rfl⟩
  | simple name => exact .inr ⟨rfl, behind, beq_iff_eq.mpr skipped⟩
  | qualified parts =>
    match parts, formed with
    | first :: second :: others, _ =>
      refine .inr ⟨rfl, nofun, beq_iff_eq.mpr ?_⟩
      have undotted := skipDotted_dotted (second :: others) (tail.map Mark.kind)
      rw [← List.map_append] at undotted
      exact (congrArg (fun kinds => (skipBrackets kinds).head?) undotted).trans skipped
  | array => cases head

theorem type_next_ne {shape : TypeShape} (formed : shape.Formed) {rest : List Mark}
    (named : Mark.next rest = .identifier) (kind : Kind) (bare : kind.isPrimitive = false)
    (other : kind ≠ .identifier) : Mark.next (shape.marks ++ rest) ≠ kind := by
  rintro rfl
  obtain ⟨p, next⟩ | ⟨next, _⟩ := type_front formed named
  · rw [next] at bare
    cases bare
  · exact other next

end Parser
end Javelet
