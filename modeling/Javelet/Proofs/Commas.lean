import Javelet.Proofs.Extent
import Javelet.Token.Scan

namespace Javelet

def Token.isComma (t : Token) : Bool := decide (t.kind = .punct .comma)

/-- The list ends in a comma. -/
def Token.endInComma (ts : List Token) : Bool := ts.getLast?.any Token.isComma

theorem Token.endInComma_append {us : List Token} (present : us ≠ []) (ts : List Token)
    (t : Token) : endInComma (ts ++ t :: us) = endInComma us := by
  rw [List.append_cons, endInComma, List.getLast?_append_of_ne_nil _ present, endInComma]

namespace Parameter

/-- The tokens of a parameter: those of a type, and the name. -/
structure SpelledBy (p : Parameter) (ts : List Token) : Prop where
  derived : Derives (.symbol .parameter) (ts.map (·.kind))
  named : ∃ type last, ts = type ++ [last] ∧ last.kind = .identifier ∧ last.value = p.name
  starts : ts.head?.map (·.span.start) = some p.span.start
  stops : ts.getLast?.map (·.span.stop) = some p.span.stop

/-- Parameters with a comma behind each, which the last can do without. -/
inductive Listed : List Parameter → List Token → Prop
  | none : Listed [] []
  | last {p : Parameter} {ts : List Token} : p.SpelledBy ts → Listed [p] ts
  | more {p : Parameter} {ps : List Parameter} {ts us : List Token} {comma : Token} :
      p.SpelledBy ts → comma.isComma = true → Listed ps us → Listed (p :: ps) (ts ++ comma :: us)

variable {p : Parameter} {ps : List Parameter} {ts : List Token}

theorem SpelledBy.not_isComma (spelled : p.SpelledBy ts) : ∀ t ∈ ts, t.isComma = false := by
  let inside (n : Nonterminal) : Prop := n = .parameter ∨ n = .type ∨ n = .qualified
  have productions (n : Nonterminal) (h : inside n) :
      n.production.Within (· ≠ .punct .comma) inside := by
    obtain rfl | rfl | rfl := h <;> simp [Nonterminal.production, inside]
  intro t member
  have other := spelled.derived.within productions (.inl rfl) t.kind (List.mem_map_of_mem member)
  exact decide_eq_false other

theorem SpelledBy.ne_nil (spelled : p.SpelledBy ts) : ts ≠ [] := by
  obtain ⟨type, last, rfl, _⟩ := spelled.named
  simp

theorem SpelledBy.countP_isComma (spelled : p.SpelledBy ts) : ts.countP Token.isComma = 0 := by
  rw [List.countP_eq_zero]
  intro t member
  simp [spelled.not_isComma t member]

theorem SpelledBy.endInComma (spelled : p.SpelledBy ts) : Token.endInComma ts = false := by
  obtain ⟨type, last, rfl, identifier, _⟩ := spelled.named
  simp [Token.endInComma, Token.isComma, identifier]

theorem Listed.eq_nil_iff (listed : Listed ps ts) : ps = [] ↔ ts = [] := by
  cases listed with
  | none => simp
  | last spelled => simp [spelled.ne_nil]
  | more => simp

/-- There is one comma less than there are parameters, if none is behind the last. -/
theorem Listed.countP_isComma (listed : Listed ps ts) :
    ts.countP Token.isComma = ps.length - 1 + (Token.endInComma ts).toNat := by
  induction listed with
  | none => rfl
  | last spelled => simp [spelled.countP_isComma, spelled.endInComma]
  | @more p ps ts us comma spelled separator others ih =>
    rw [List.countP_append, spelled.countP_isComma, List.countP_cons_of_pos separator, ih]
    by_cases ended : us = []
    · obtain rfl := others.eq_nil_iff.mpr ended
      simp [ended, Token.endInComma, separator]
    · have count : 0 < ps.length := by
        rw [List.length_pos_iff]
        exact fun absent => ended (others.eq_nil_iff.mp absent)
      rw [Token.endInComma_append ended, List.length_cons]
      omega

/-- At each comma a list falls into the parameters before it and those behind it. Before it there is
always one. -/
theorem Listed.split {comma : Token} (listed : Listed ps ts) {left right : List Token}
    (whole : ts = left ++ comma :: right) (separator : comma.isComma = true) :
    ∃ earlier later, ps = earlier ++ later ∧ earlier ≠ [] ∧ Listed earlier left ∧
      Token.endInComma left = false ∧ Listed later right := by
  induction listed generalizing left with
  | none => simp at whole
  | last spelled =>
    have absent := spelled.not_isComma comma (by simp [whole])
    rw [separator] at absent
    cases absent
  | @more p ps ts us first spelled separates others ih =>
    -- a comma is not among the tokens of the first parameter
    obtain ⟨more, rfl, behind⟩ | ⟨more, rfl, behind⟩ := List.append_eq_append_iff.mp whole
    · cases more with
      | nil =>
        cases behind
        rw [List.append_nil]
        exact ⟨[p], ps, rfl, List.cons_ne_nil _ _, .last spelled, spelled.endInComma, others⟩
      | cons t more =>
        obtain ⟨rfl, rest⟩ := List.cons_eq_cons.mp behind
        obtain ⟨earlier, later, rfl, present, front, plain, back⟩ := ih rest
        have inside : more ≠ [] := fun absent => present (front.eq_nil_iff.mpr absent)
        rw [← Token.endInComma_append inside ts first] at plain
        exact ⟨p :: earlier, later, rfl, List.cons_ne_nil _ _, .more spelled separates front,
          plain, back⟩
    · cases more with
      | nil =>
        cases behind
        rw [List.append_nil] at spelled
        exact ⟨[p], ps, rfl, List.cons_ne_nil _ _, .last spelled, spelled.endInComma, others⟩
      | cons t more =>
        obtain ⟨rfl, _⟩ := List.cons_eq_cons.mp behind
        have absent := spelled.not_isComma comma (by simp)
        rw [separator] at absent
        cases absent

end Parameter

namespace Cursor

variable {c c' : Cursor}

/-- A step takes the current token. -/
theorem Step.taken (step : c.Step c') :
    c.ahead = c.current :: c'.ahead ∧ c'.previousEnd = c.current.span.stop := by
  obtain ⟨inside, rfl⟩ := step
  obtain ⟨t, rest, here⟩ := List.exists_cons_of_ne_nil inside
  simp [advance, current, here]

theorem ahead_eq_cons (inside : c.kind ≠ .eof) : c.ahead = c.current :: c.advance.ahead :=
  (Step.taken ⟨c.ahead_ne_nil inside, rfl⟩).1

theorem Leads.taken (leads : c.Leads c') : ∃ ts, c.ahead = ts ++ c'.ahead := by
  induction leads with
  | refl => exact ⟨[], rfl⟩
  | tail _ step ih =>
    obtain ⟨ts, before⟩ := ih
    exact ⟨ts ++ [_], by rw [before, step.taken.1, List.append_cons]⟩

/-- The tokens of a part start where the part does, and stop there too. -/
theorem Passes.taken (passes : c.Passes c') : ∃ ts, c.ahead = ts ++ c'.ahead ∧
    ts.head?.map (·.span.start) = some c.position ∧
    ts.getLast?.map (·.span.stop) = some c'.previousEnd := by
  obtain ⟨m, leads, step⟩ := Relation.TransGen.tail'_iff.mp passes
  obtain ⟨last, stop⟩ := step.taken
  obtain ⟨ts, before⟩ := Leads.taken leads
  rw [last, List.append_cons] at before
  refine ⟨ts ++ [m.current], before, ?_, ?_⟩
  · cases ts <;> simp [position, current, before]
  · rw [List.getLast?_concat, stop]
    rfl

end Cursor

/-- The tokens between two places of a stream are derived from the phrase that stands there. -/
theorem Phrase.Between.derives {p : Phrase} {c c' : Cursor} (between : p.Between c c')
    {ts : List Token} (taken : c.ahead = ts ++ c'.ahead) : Derives p (ts.map (·.kind)) := by
  obtain ⟨ms, here, covered, _⟩ := between
  rw [Cursor.marks, taken, List.map_append] at here
  rw [← List.append_cancel_right here, List.map_map] at covered
  simpa [Function.comp_def, Token.mark_kind] using covered

namespace Parser

variable (g : Grammar) {c c' : Cursor}

theorem parameter_spelled {p : Parameter} (run : (parameter g).run c = .ok p c') :
    ∃ ts, c.ahead = ts ++ c'.ahead ∧ p.SpelledBy ts := by
  have between := parameter_takes g c p c' run
  obtain ⟨type, m, typed, here, rfl, rfl⟩ := parameter_ok g run
  have inside : m.kind ≠ .eof := by simp [here]
  obtain ⟨first, _⟩ := typeExpr_extent g typed
  have passes := first.trans_leads (Cursor.passes_advance inside).leads
  obtain ⟨ts, taken, starts, stops⟩ := passes.taken
  refine ⟨ts, taken, between.derives taken, ?_, starts, stops⟩
  obtain ⟨tokens, before⟩ := first.leads.taken
  rw [taken, Cursor.ahead_eq_cons inside, List.append_cons] at before
  exact ⟨tokens, m.current, List.append_cancel_right before, here, rfl⟩

/-- Round by round, each parameter is read with its comma. -/
theorem parameters_listed {ps : List Parameter} (run : (parameters g).run c = .ok ps c') :
    ∃ ts, c.ahead = ts ++ c'.ahead ∧ Parameter.Listed ps ts := by
  have items := many_ok (nextParameter_shrinks g) run
  clear run
  induction items with
  | none ended =>
    obtain ⟨_, rfl⟩ | ⟨_, _, found, _⟩ := nextParameter_ok g ended
    · exact ⟨[], rfl, .none⟩
    · cases found
  | some ran rest ih =>
    obtain ⟨none, _⟩ | ⟨p, m, found, own, ends⟩ := nextParameter_ok g ran
    · cases none
    · cases found
      obtain ⟨ts, taken, spelled⟩ := parameter_spelled g own
      obtain ⟨comma, rfl⟩ | ⟨closed, rfl⟩ := ends
      · obtain ⟨us, others, listed⟩ := ih
        refine ⟨ts ++ m.current :: us, ?_, .more spelled (decide_eq_true comma) listed⟩
        rw [taken, Cursor.ahead_eq_cons (by simp [comma]), others, List.append_assoc,
          List.cons_append]
      · obtain ⟨rfl, rfl⟩ := rest.eq_of_closed g closed
        exact ⟨ts, taken, .last spelled⟩

end Parser

/-- The tokens of a method, cut at its name and at its parentheses. -/
structure MethodTokens where
  front : List Token
  name : Token
  opening : Token
  items : List Token
  closing : Token
  back : List Token

def MethodTokens.all (w : MethodTokens) : List Token :=
  w.front ++ w.name :: w.opening :: (w.items ++ w.closing :: w.back)

/-- A method is written with these tokens, its parameters with those in the parentheses. -/
structure Method.SpelledBy (m : Method) (w : MethodTokens) : Prop where
  starts : w.front.head?.map (·.span.start) = some m.span.start
  named : w.name.kind = .identifier ∧ w.name.value = m.name
  opens : w.opening.kind = .punct .openParen
  listed : Parameter.Listed m.parameters w.items
  closes : w.closing.kind = .punct .closeParen
  stops : w.back.getLast?.map (·.span.stop) = some m.span.stop

/-- A method is written somewhere in a list of tokens. -/
def Method.StandsIn (m : Method) (ts : List Token) : Prop := ∃ w, m.SpelledBy w ∧ w.all <:+: ts

theorem Method.StandsIn.earlier {m : Method} {c c' : Cursor} (stands : m.StandsIn c'.ahead)
    (leads : c.Leads c') : m.StandsIn c.ahead := by
  obtain ⟨w, spelled, stretch⟩ := stands
  obtain ⟨ts, taken⟩ := leads.taken
  refine ⟨w, spelled, stretch.trans ?_⟩
  rw [taken]
  exact (List.suffix_append ts c'.ahead).isInfix

mutual

/-- The methods of a class and of all the classes in it. -/
def Class.everyMethod : Class → List Method
  | ⟨_, _, _, methods, nested, _⟩ => methods ++ Class.everyMethodIn nested

def Class.everyMethodIn : List Class → List Method
  | [] => []
  | first :: rest => first.everyMethod ++ Class.everyMethodIn rest

end

theorem Class.everyMethodIn_eq_flatMap (classes : List Class) :
    everyMethodIn classes = classes.flatMap everyMethod := by
  induction classes with
  | nil => rfl
  | cons first rest ih => rw [everyMethodIn, ih, List.flatMap_cons]

def CompilationUnit.everyMethod (u : CompilationUnit) : List Method :=
  u.classes.flatMap Class.everyMethod

def Member.everyMethod : Member → List Method
  | .method m => [m]
  | .nested k => k.everyMethod
  | .empty | .field _ => []

/-- The methods of a class are those of its members. -/
theorem Class.everyMethod_subset {name : String} {modifiers : List Modifier} {xs : List Member}
    {span : Span} : ∀ m ∈ everyMethod ⟨name, modifiers, xs.filterMap Member.field?,
      xs.filterMap Member.method?, xs.filterMap Member.nested?, span⟩,
    ∃ x ∈ xs, m ∈ x.everyMethod := by
  intro m member
  rw [everyMethod, everyMethodIn_eq_flatMap, List.mem_append] at member
  obtain own | inner := member
  · obtain ⟨x, listed, here⟩ := List.mem_filterMap.mp own
    cases x <;> cases here
    exact ⟨_, listed, List.mem_singleton_self m⟩
  · obtain ⟨k, nested, below⟩ := List.mem_flatMap.mp inner
    obtain ⟨x, listed, here⟩ := List.mem_filterMap.mp nested
    cases x <;> cases here
    exact ⟨_, listed, below⟩

/-- A member is laid here, and its methods are written from here on. -/
def Member.Stands (x : Member) (c c' : Cursor) : Prop :=
  Parser.Member.Laid x c c' ∧ ∀ y ∈ x.everyMethod, y.StandsIn c.ahead

/-- What stands at the items of a row stands where the row begins. -/
theorem Row.standing {α : Type} {R : α → Cursor → Cursor → Prop} {methods : α → List Method}
    (leads : ∀ x c c', R x c c' → c.Leads c') {xs : List α} {c c' : Cursor}
    (row : Row (fun x c c' => R x c c' ∧ ∀ m ∈ methods x, m.StandsIn c.ahead) xs c c') :
    ∀ x ∈ xs, ∀ m ∈ methods x, m.StandsIn c.ahead := by
  induction row with
  | nil => exact List.forall_mem_nil _
  | cons before here _ ih =>
    rw [List.forall_mem_cons]
    constructor
    · exact fun m member => (here.2 m member).earlier before
    · intro x listed m member
      exact (ih x listed m member).earlier (before.trans (leads _ _ _ here.1))

namespace Parser

variable (g : Grammar) {c c' a m : Cursor} {ms : List Modifier} {type : TypeExpr}

theorem method_stands {x : Method} (begun : Begun c a m type)
    (run : (method g c.position ms type).run m = .ok x c') : x.StandsIn c.ahead := by
  obtain ⟨ps, body, b, identifier, opens, listed, closes, ran, rfl⟩ := method_ok g run
  obtain ⟨front, before, starts, _⟩ := (begun.modified.trans_passes begun.typed).taken
  obtain ⟨items, inside, separated⟩ := parameters_listed g listed
  obtain ⟨back, behind, _, stops⟩ := (methodBody_passes g ran).taken
  refine ⟨⟨front, m.current, m.advance.current, items, b.current, back⟩, ?_, ?_⟩
  · exact ⟨starts, ⟨identifier, rfl⟩, opens, separated, closes, stops⟩
  · have whole : c.ahead = front ++ m.current :: m.advance.current ::
        (items ++ b.current :: (back ++ c'.ahead)) := by
      rw [before, Cursor.ahead_eq_cons (by simp [identifier]),
        Cursor.ahead_eq_cons (by simp [opens]), inside, Cursor.ahead_eq_cons (by simp [closes]),
        behind]
    refine List.IsPrefix.isInfix ⟨c'.ahead, ?_⟩
    rw [whole]
    simp [MethodTokens.all]

theorem classOf_stands {inside : Parser (List Member)}
    (row : ∀ c xs c', inside.run c = .ok xs c' → Row Member.Stands xs c c') {k : Class}
    (modified : c.Leads m) (run : (classOf inside c.position ms).run m = .ok k c') :
    ∀ y ∈ k.everyMethod, y.StandsIn c.ahead := by
  obtain ⟨xs, m', word, here, opens, ran, _, rfl, rfl⟩ := classOf_ok run
  have toName := modified.trans (Cursor.passes_word word).leads
  have name := (Cursor.passes_name here).leads
  have brace := (Cursor.passes_punct opens).leads
  intro y member
  obtain ⟨x, listed, own⟩ := Class.everyMethod_subset y member
  have standing := Row.standing (fun _ _ _ laid => laid.leads) (row _ _ _ ran)
  exact (standing x listed y own).earlier (toName.trans (name.trans brace))

theorem Member.stands_hereditary : Hereditary g Member.Stands where
  empty here := ⟨(Member.laid_hereditary g).empty here, List.forall_mem_nil _⟩
  field begun run := ⟨field_laid g begun run, List.forall_mem_nil _⟩
  method begun run :=
    ⟨method_laid g begun run, List.forall_mem_singleton.mpr (method_stands g begun run)⟩
  nested row modified run := by
    refine ⟨classOf_laid (fun c xs c' ran => ?_) modified run, classOf_stands row modified run⟩
    exact (row c xs c' ran).imp fun _ _ _ stands => stands.1

theorem compilationUnit_stands {u : CompilationUnit} (run : (compilationUnit g).run c = .ok u c') :
    ∀ y ∈ u.everyMethod, y.StandsIn c.ahead := by
  obtain ⟨_, m, m', first, imports, classes⟩ :=
    compilationUnit_parts g (Member.stands_hereditary g) run
  have standing := Row.standing (fun _ _ _ laid => Member.Laid.leads laid) classes
  intro y member
  obtain ⟨k, own, inside⟩ := List.mem_flatMap.mp member
  exact (standing k own y inside).earlier (first.trans imports.leads_laid)

end Parser

/-- The stream of some tokens is all of them but an ending. -/
theorem Cursor.ofTokens_prefix (tokens : List Token) (file : String) :
    (ofTokens tokens file).ahead <+: tokens := by
  unfold ofTokens
  split
  · exact List.nil_prefix
  · dsimp only
    split
    · exact List.dropLast_prefix tokens
    · exact List.prefix_refl tokens

/-- In the parameter list of a method that is read, every comma has parameters before it; it has
others behind it too, unless it is the last token of the list. So there is one comma less than
there are parameters, or, with one at the end, as many. -/
theorem commas_separate_parameters (tokens : List Token) (file : String) {u : CompilationUnit}
    (parsed : CompilationUnit.ofTokens tokens file = .ok u) {m : Method}
    (declared : m ∈ u.everyMethod) :
    ∃ w, m.SpelledBy w ∧ w.all <:+: tokens ∧
      (∀ left comma right, w.items = left ++ comma :: right → comma.isComma = true →
        ∃ earlier later, m.parameters = earlier ++ later ∧ earlier ≠ [] ∧
          Parameter.Listed earlier left ∧ Token.endInComma left = false ∧
          Parameter.Listed later right ∧ (later = [] ↔ right = [])) ∧
      w.items.countP Token.isComma =
        m.parameters.length - 1 + (Token.endInComma w.items).toNat ∧
      (w.items.countP Token.isComma = m.parameters.length - 1 ↔
        Token.endInComma w.items = false) := by
  obtain ⟨c', run⟩ := CompilationUnit.exists_run_of_ofTokens parsed
  obtain ⟨w, spelled, stretch⟩ := Parser.compilationUnit_stands .standard run m declared
  have count := spelled.listed.countP_isComma
  refine ⟨w, spelled, stretch.trans (Cursor.ofTokens_prefix tokens file).isInfix, ?_, count, ?_⟩
  · intro left comma right whole separator
    obtain ⟨earlier, later, all, present, front, plain, back⟩ :=
      spelled.listed.split whole separator
    exact ⟨earlier, later, all, present, front, plain, back, back.eq_nil_iff⟩
  · rw [count]
    cases Token.endInComma w.items <;> simp

/-- Two parameters with a comma between them, and in a nested class one with a comma behind it. -/
theorem commas_separate_parameters_sample :
    ∃ tokens u, Token.scan "class C\x7bvoid m(int a,C b);class D\x7bint n(C c,);\x7d\x7d" "" =
        .ok tokens ∧ CompilationUnit.ofTokens tokens "" = .ok u ∧
      u.everyMethod.map (·.parameters.length) = [2, 1] ∧
      ∀ m ∈ u.everyMethod, ∃ w, m.SpelledBy w ∧ w.all <:+: tokens ∧
        w.items.countP Token.isComma =
          m.parameters.length - 1 + (Token.endInComma w.items).toNat := by
  have well : (do
      let tokens ← Token.scan "class C\x7bvoid m(int a,C b);class D\x7bint n(C c,);\x7d\x7d" ""
      let u ← CompilationUnit.ofTokens tokens ""
      return u.everyMethod.map (·.parameters.length)) = Except.ok [2, 1] := by cbv
  obtain ⟨tokens, scanned, further⟩ := (Run.except_bind_ok_iff ..).mp well
  obtain ⟨u, parsed, counts⟩ := (Run.except_bind_ok_iff ..).mp further
  refine ⟨tokens, u, scanned, parsed, Except.ok.inj counts, fun m declared => ?_⟩
  obtain ⟨w, spelled, stretch, _, count, _⟩ :=
    commas_separate_parameters tokens "" parsed declared
  exact ⟨w, spelled, stretch, count⟩

/-- The tokens of `void m(int a,);`, from byte 8 on. -/
def MethodTokens.sample : MethodTokens :=
  let token (kind : Kind) (value : String) (start stop : UInt32) : Token :=
    ⟨kind, value, ⟨⟨start, ""⟩, ⟨stop, ""⟩⟩⟩
  { front := [token (.primitive .void) "void" 8 12]
    name := token .identifier "m" 13 14
    opening := token (.punct .openParen) "(" 14 15
    items := [token (.primitive .int) "int" 15 18, token .identifier "a" 19 20,
      token (.punct .comma) "," 20 21]
    closing := token (.punct .closeParen) ")" 21 22
    back := [token (.punct .semicolon) ";" 22 23] }

/-- A method of one parameter that is read with a comma in its list. -/
theorem comma_behind_last_parameter :
    ∃ tokens u m, Token.scan "class C\x7bvoid m(int a,);\x7d" "" = .ok tokens ∧
      CompilationUnit.ofTokens tokens "" = .ok u ∧ u.everyMethod = [m] ∧
      m.SpelledBy .sample ∧ MethodTokens.sample.all <:+: tokens ∧ m.parameters.length = 1 ∧
      MethodTokens.sample.items.countP Token.isComma = 1 := by
  let front : List Token := [⟨.keyword .classWord, "class", ⟨⟨0, ""⟩, ⟨5, ""⟩⟩⟩,
    ⟨.identifier, "C", ⟨⟨6, ""⟩, ⟨7, ""⟩⟩⟩, ⟨.punct .openCurly, "\x7b", ⟨⟨7, ""⟩, ⟨8, ""⟩⟩⟩]
  let back : List Token := [⟨.punct .closeCurly, "\x7d", ⟨⟨23, ""⟩, ⟨24, ""⟩⟩⟩, .ending ⟨24, ""⟩]
  have derived : Derives (.symbol .parameter) (([.primitive .int] ++ []) ++ [.identifier]) :=
    .symbol (.seq (.symbol (.seq (.one (.token rfl)) .stop)) (.token rfl))
  refine ⟨front ++ MethodTokens.sample.all ++ back, _, _, by cbv, rfl, rfl,
    ⟨rfl, ⟨rfl, rfl⟩, rfl, ?_, rfl, rfl⟩, ⟨front, back, rfl⟩, rfl, rfl⟩
  change Parameter.Listed _ (MethodTokens.sample.items.take 2 ++ _ :: [])
  exact .more ⟨derived, ⟨[_], _, rfl, rfl, rfl⟩, rfl, rfl⟩ rfl .none

end Javelet
