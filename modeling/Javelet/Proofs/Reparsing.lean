import Javelet.Proofs.Reading

namespace Javelet.Parser

variable {α β γ : Type} {g : Grammar}

/-- Marks that can begin an item in braces. -/
def Opens (ms : List Mark) : Prop :=
  Mark.next ms ≠ .punct .closeCurly ∧ Mark.next ms ≠ .eof

theorem Opens.ne_nil {ms : List Mark} (h : Opens ms) : ms ≠ [] := by
  rintro rfl
  exact h.2 rfl

theorem nextInBraces_stops (item : Parser α) :
    Reads (nextInBraces item) [] (Before (.punct .closeCurly)) (· = none) := by
  unfold nextInBraces
  refine .kind_nil fun rest after => ?_
  rw [show Mark.next rest = _ from after]
  exact pure_reads (by rfl) _

theorem nextInBraces_reads {item : Parser α} {ms : List Mark} {follow : List Mark → Prop}
    {Q : Option α → Prop} (opens : Opens ms) (reads : Reads item ms follow fun a => Q (some a)) :
    Reads (nextInBraces item) ms follow Q := by
  cases ms with
  | nil => exact absurd rfl opens.2
  | cons m ms =>
    unfold nextInBraces
    refine .kind_cons ?_
    split
    · rename_i closing
      exact absurd closing opens.1
    · rename_i ending
      exact absurd ending opens.2
    · exact .map reads

/-- The items in braces. -/
theorem braces_read {item : Parser α} {write : β → List Mark} {view : α → γ} {shown : β → γ}
    (bs : List β)
    (each : ∀ b ∈ bs, Opens (write b) ∧ Reads item (write b) Anything fun a => view a = shown b) :
    Reads (many (nextInBraces item)) (bs.flatMap write) (Before (.punct .closeCurly))
      fun as => as.map view = bs.map shown := by
  refine many_reads bs (nextInBraces_stops item) (fun b member => (each b member).1.ne_nil)
    (fun _ _ _ => trivial) (fun _ _ => trivial) fun b member => ?_
  obtain ⟨opens, reads⟩ := each b member
  exact nextInBraces_reads opens (reads.imp fun _ same => by simp [same])

/-- Each row is no longer than all of them. -/
theorem length_le_flatMap (write : β → List Mark) {bs : List β} {b : β} (member : b ∈ bs) :
    (write b).length ≤ (bs.flatMap write).length := by
  rw [List.flatMap_def]
  exact (List.sublist_flatten_of_mem (List.mem_map_of_mem member)).length_le

theorem blockOf_reads {inside : Parser (List Statement)} {ms : List Mark}
    {good : List Statement → Prop}
    (reads : Reads inside ms (Before (.punct .closeCurly)) good) :
    Reads (blockOf inside) (.punct .openCurly :: (ms ++ [.punct .closeCurly])) Anything
      fun b => good b.body := by
  unfold blockOf
  refine .cons (expectPunct_reads _) fun opening _ => ?_
  refine reads.bind (fun _ _ => rfl) fun body made => ?_
  refine .last (expectPunct_reads _) fun _ _ => ?_
  exact spanFrom_reads (fun _ => by exact made) _

/-- A declaration opens with its type, and the type with a primitive or a name. -/
theorem localDeclaration_front {d : LocalDeclaration} (formed : d.Formed) (rest : List Mark) :
    (∃ p, Mark.next (d.marks ++ rest) = .primitive p) ∨
      Mark.next (d.marks ++ rest) = .identifier ∧
      startsDeclaration ((d.marks ++ rest).map Mark.kind) = true := by
  have named := (listMarks_front formed.2 rest).1
  rw [LocalDeclaration.marks, List.append_assoc, List.append_assoc]
  obtain primitive | ⟨identifier, _, starts⟩ := type_front formed.1 named
  · exact .inl primitive
  · exact .inr ⟨identifier, starts⟩

theorem statementOf_reads_declaration {d : LocalDeclaration} (formed : d.Formed)
    (inside : Parser (List Statement)) :
    Reads (statementOf .standard inside) d.marks Anything
      (·.erase = (Statement.declaration d).erase) := by
  have reads : Reads (do return Statement.declaration (← localDeclaration .standard)) d.marks
      Anything (·.erase = (Statement.declaration d).erase) := by
    refine .last (localDeclaration_reads formed) fun a same => ?_
    exact pure_reads (by rw [Statement.erase, same, Statement.erase]) _
  unfold statementOf
  refine .look fun c rest here _ => ?_
  rw [Cursor.kind_eq, Cursor.kinds_ahead, here]
  obtain ⟨p, primitive⟩ | ⟨identifier, starts⟩ := localDeclaration_front formed rest
  · rw [primitive]
    exact reads
  · rw [identifier, starts]
    exact reads

theorem statementOf_reads_block {inside : Parser (List Statement)} {body : List Statement}
    {span : Span}
    (reads : Reads inside (body.flatMap Statement.marks) (Before (.punct .closeCurly))
      fun as => as.map Statement.erase = body.map Statement.erase) :
    Reads (statementOf .standard inside) (Statement.block body span).marks Anything
      (·.erase = (Statement.block body span).erase) := by
  rw [Statement.marks, Statement.marksIn_eq_flatMap, List.cons_append]
  unfold statementOf
  refine .look fun c rest here _ => ?_
  rw [Cursor.kind_eq, here]
  refine .last (blockOf_reads reads) fun b same => pure_reads ?_ _
  rw [Statement.ofBlock, Statement.erase, Statement.erase, Statement.eraseIn_eq_map,
    Statement.eraseIn_eq_map, same]

theorem Opens.of_statement {s : Statement} (formed : s.Formed) : Opens s.marks := by
  cases s with
  | block body span =>
    constructor
    · intro h; cases h
    · intro h; cases h
  | declaration d =>
    have named := (listMarks_front formed.2 []).1
    rw [Opens, Statement.marks, LocalDeclaration.marks, List.append_assoc]
    constructor
    · exact type_next_ne formed.1 named _ rfl (by decide)
    · exact type_next_ne formed.1 named _ rfl (by decide)

/-- A statement is read at any depth that its tokens allow for. The induction is on the depth: the
inside of a block is read with one level less, and is shorter by the braces. -/
theorem statementOf_reads {s : Statement} (formed : s.Formed) {depth : Nat}
    (enough : s.marks.length ≤ depth) :
    Reads (statementOf .standard (statements .standard depth)) s.marks Anything
      (·.erase = s.erase) := by
  induction depth generalizing s with
  | zero =>
    have some := List.length_pos_iff.mpr (Opens.of_statement formed).ne_nil
    omega
  | succ depth ih =>
    cases s with
    | declaration d => exact statementOf_reads_declaration formed _
    | block body span =>
      apply statementOf_reads_block
      rw [Statement.Formed, Statement.formedIn_iff] at formed
      rw [Statement.marks, Statement.marksIn_eq_flatMap, List.length_append,
        List.length_cons] at enough
      rw [statements]
      refine braces_read body fun s member => ⟨.of_statement (formed s member), ?_⟩
      have shorter := length_le_flatMap Statement.marks member
      exact ih (formed s member) (by omega)

theorem block_reads {b : Block} (formed : b.Formed) :
    Reads (block .standard) b.marks Anything (·.erase = b.erase) := by
  have inside : Reads (body .standard) (b.body.flatMap Statement.marks)
      (Before (.punct .closeCurly))
      fun as => as.map Statement.erase = b.body.map Statement.erase := by
    unfold body
    refine .look fun c rest here _ => ?_
    have room := congrArg List.length here
    rw [Cursor.length_marks, List.length_append] at room
    rw [statements]
    refine braces_read b.body fun s member => ⟨.of_statement (formed s member), ?_⟩
    have shorter := length_le_flatMap Statement.marks member
    exact statementOf_reads (formed s member) (by omega)
  rw [Block.marks, List.cons_append]
  unfold block
  exact (blockOf_reads inside).imp fun a same => by
    rw [Block.erase, same, Block.erase]

/-- What follows a parameter. -/
def EndsParameter : List Mark → Prop := fun rest =>
  Before (.punct .comma) rest ∨ Before (.punct .closeParen) rest

/-- Before a token that is no modifier. -/
def Unmodified : List Mark → Prop := fun rest => (Mark.next rest).isModifier = false

theorem unmodified_of_ne {rest : List Mark} (h : ∀ m, Mark.next rest ≠ .modifier m) :
    Unmodified rest := by
  unfold Unmodified Kind.isModifier
  split
  · rename_i m next
    exact absurd next (h m)
  · rfl

theorem refuseModifier_reads : Reads refuseModifier [] Unmodified fun _ => True := by
  unfold refuseModifier
  refine .look fun c rest here after => ?_
  rw [Cursor.kind_eq, here, List.nil_append, if_neg (by rw [after]; nofun)]
  exact pure_reads trivial _

theorem parameter_next_ne {p : Parameter} (formed : p.Formed) (kind : Kind)
    (bare : kind.isPrimitive = false) (other : kind ≠ .identifier) (rest : List Mark) :
    Mark.next (p.marks ++ rest) ≠ kind := by
  rw [Parameter.marks, List.append_assoc]
  exact type_next_ne formed rfl kind bare other

theorem parameter_reads {p : Parameter} (formed : p.Formed) :
    Reads (parameter .standard) p.marks EndsParameter (·.erase = p.erase) := by
  have front (rest : List Mark) : Unmodified (p.marks ++ rest) :=
    unmodified_of_ne fun m => parameter_next_ne formed (.modifier m) rfl nofun rest
  obtain ⟨name, ⟨shape, position⟩, span⟩ := p
  unfold parameter
  refine .skip position_reads (fun _ _ => trivial) fun start _ => ?_
  refine .skip refuseModifier_reads (fun rest _ => front rest) fun _ _ => ?_
  refine (typeExpr_reads formed).bind (fun _ _ => rfl) fun t same => ?_
  refine .skip (refuse_reads _ _) (fun _ _ => nofun) fun _ _ => ?_
  refine .cons (take_reads rfl _) fun t named => ?_
  have said := Token.value_of_name named
  refine .skip (refuse_reads _ _) ?_ fun _ _ => ?_
  · rintro rest (next | next) array
    · exact absurd (next.symm.trans array) nofun
    · exact absurd (next.symm.trans array) nofun
  · exact spanFrom_reads (fun _ => by simp only [Parameter.erase, TypeExpr.erase, said, same]) _

theorem nextParameter_stops :
    Reads (nextParameter .standard) [] (Before (.punct .closeParen)) (· = none) := by
  intro c rest here after
  have closed : c.kind = .punct .closeParen := by
    rw [Cursor.kind_eq, here]
    exact after
  exact ⟨none, c, nextParameter_of_closed _ closed, here, rfl⟩

/-- A parameter with the comma behind it, or with nothing and then the closing parenthesis. -/
theorem nextParameter_reads {p : Parameter} (formed : p.Formed) {behind : List Mark}
    {follow : List Mark → Prop} (ends : Reads parameterEnd behind follow fun _ => True)
    (follows : ∀ rest, follow rest → EndsParameter (behind ++ rest)) :
    Reads (nextParameter .standard) (p.marks ++ behind) follow
      fun r => r.map Parameter.erase = some p.erase := by
  unfold nextParameter
  refine .kind fun rest _ => ?_
  rw [if_neg]
  · refine (parameter_reads formed).bind follows fun a same => ?_
    refine .last ends fun _ _ => ?_
    exact pure_reads (by rw [Option.map_some, same]) _
  · rw [List.append_assoc]
    exact parameter_next_ne formed (.punct .closeParen) rfl nofun _

theorem parameterEnd_reads_comma : Reads parameterEnd [.punct .comma] Anything fun _ => True := by
  unfold parameterEnd
  refine .kind_cons ?_
  refine .last (advance_reads _) fun _ _ => ?_
  exact pure_reads trivial _

theorem parameterEnd_reads_nothing :
    Reads parameterEnd [] (Before (.punct .closeParen)) fun _ => True := by
  unfold parameterEnd
  refine .kind_nil fun rest after => ?_
  rw [show Mark.next rest = _ from after]
  exact pure_reads trivial _

theorem parameters_read {ps : List Parameter} (formed : ∀ p ∈ ps, p.Formed) {behind : List Mark}
    (ends : behind = [.punct .comma] ∧ ps ≠ [] ∨ behind = []) :
    Reads (parameters .standard) (Mark.listed (ps.map Parameter.marks) ++ behind)
      (Before (.punct .closeParen)) fun as => as.map Parameter.erase = ps.map Parameter.erase := by
  have solid (p : Parameter) (more : List Mark) : p.marks ++ more ≠ [] := by
    simp [Parameter.marks]
  have stop : ReadsRow (nextParameter .standard) [] (Before (.punct .closeParen))
      fun as => as.map Parameter.erase = [].map Parameter.erase := .nil nextParameter_stops rfl
  unfold parameters
  apply ReadsRow.many
  induction ps with
  | nil =>
    obtain ⟨_, none⟩ | rfl := ends
    · exact absurd rfl none
    · exact stop
  | cons p ps ih =>
    obtain ⟨own, others⟩ := List.forall_mem_cons.mp formed
    have joined (a : Parameter) (as : List Parameter) (same : a.erase = p.erase)
        (sames : as.map Parameter.erase = ps.map Parameter.erase) :
        (a :: as).map Parameter.erase = (p :: ps).map Parameter.erase := by
      rw [List.map_cons, same, sames, List.map_cons]
    cases ps with
    | nil =>
      -- the last one: what is behind it is its own
      have single : Mark.listed ([p].map Parameter.marks) ++ behind = p.marks ++ behind ++ [] := by
        simp [Mark.listed]
      rw [single]
      obtain ⟨rfl, _⟩ | rfl := ends
      · exact .cons (nextParameter_reads own parameterEnd_reads_comma fun _ _ => .inl rfl)
          (solid p _) (fun _ _ => trivial) stop joined
      · exact .cons (nextParameter_reads own parameterEnd_reads_nothing fun _ after => .inr after)
          (solid p _) (fun _ after => after) stop joined
    | cons q qs =>
      have split : Mark.listed ((p :: q :: qs).map Parameter.marks) ++ behind =
          p.marks ++ [.punct .comma] ++
            (Mark.listed ((q :: qs).map Parameter.marks) ++ behind) := by
        simp [Mark.listed_cons_cons]
      rw [split]
      have rest := ih others (ends.imp_left fun h => ⟨h.1, List.cons_ne_nil _ _⟩)
      exact .cons (nextParameter_reads own parameterEnd_reads_comma fun _ _ => .inl rfl)
        (solid p _) (fun _ _ => trivial) rest joined

theorem refuseThrows_reads :
    Reads refuseThrows [] (fun rest => Mark.next rest ≠ .identifier) fun _ => True := by
  unfold refuseThrows
  refine .look fun c rest here after => ?_
  rw [if_neg]
  · exact pure_reads trivial _
  · rintro ⟨named, _⟩
    rw [Cursor.kind_eq, here] at named
    exact after named

theorem methodBody_reads {body : Option Block} (formed : ∀ b ∈ body, b.Formed) :
    Reads (methodBody .standard) (Method.bodyMarks body) Anything
      (·.map Block.erase = body.map Block.erase) := by
  unfold methodBody
  cases body with
  | none =>
    refine .kind_cons ?_
    rw [if_pos (by rfl)]
    refine .last (advance_reads _) fun _ _ => ?_
    exact pure_reads (by rfl) _
  | some b =>
    refine .kind_cons ?_
    rw [if_neg nofun]
    refine .map ?_
    exact (block_reads (formed b rfl)).imp fun _ same => by simp [same]

/-- A body opens with a brace, or is a semicolon. -/
theorem bodyMarks_next (body : Option Block) (rest : List Mark) :
    Mark.next (Method.bodyMarks body ++ rest) = .punct .semicolon ∨
      Mark.next (Method.bodyMarks body ++ rest) = .punct .openCurly := by
  cases body with
  | none => exact .inl rfl
  | some b => exact .inr rfl

theorem method_reads {m : Method} (formed : m.Formed) {behind : List Mark}
    (ends : behind = [.punct .comma] ∧ m.parameters ≠ [] ∨ behind = []) (start : Position)
    {t : TypeExpr} (typed : t.shape = m.type.shape) :
    Reads (method .standard start m.modifiers t) (m.tail behind) Anything
      (·.erase = m.erase) := by
  obtain ⟨modifiers, type, name, ps, body, span⟩ := m
  obtain ⟨_, parametersFormed, bodyFormed⟩ := formed
  unfold method
  refine .cons (take_reads rfl _) fun t named => ?_
  have said := Token.value_of_name named
  refine .cons (expectPunct_reads _) fun _ _ => ?_
  refine (parameters_read parametersFormed ends).bind (fun _ _ => rfl) fun as sames => ?_
  refine .cons (expectPunct_reads _) fun _ _ => ?_
  refine .skip (refuse_reads _ _) ?_ fun _ _ => ?_
  · intro rest _
    obtain next | next := bodyMarks_next body rest <;> rw [next] <;> nofun
  · refine .skip refuseThrows_reads ?_ fun _ _ => ?_
    · intro rest _
      obtain next | next := bodyMarks_next body rest <;> rw [next] <;> nofun
    · refine .last (methodBody_reads bodyFormed) fun b same => ?_
      exact spanFrom_reads (fun _ => by
        simp only [Method.erase, TypeExpr.erase, typed, said, sames, same]) _

theorem field_reads {f : Field} (formed : f.Formed) (start : Position) {t : TypeExpr}
    (typed : t.shape = f.type.shape) :
    Reads (field .standard start f.modifiers t)
      (Declarator.listMarks f.declarators ++ [.punct .semicolon]) Anything (·.erase = f.erase) := by
  unfold field
  refine (declarators_read formed.2).bind (fun _ _ => rfl) fun as sames => ?_
  refine .last (expectPunct_reads _) fun _ _ => ?_
  exact spanFrom_reads (fun _ => by simp only [Field.erase, TypeExpr.erase, typed, sames]) _

theorem nextModifier_stops : Reads nextModifier [] Unmodified (· = none) := by
  unfold nextModifier
  refine .kind_nil fun rest after => ?_
  split
  · rename_i m here
    rw [Unmodified, here] at after
    cases after
  · exact pure_reads (by rfl) _

theorem nextModifier_reads (m : Modifier) :
    Reads nextModifier [.modifier m] Anything fun r => r.map id = some m := by
  unfold nextModifier
  refine .kind_cons ?_
  refine .last (advance_reads _) fun _ _ => ?_
  exact pure_reads (by rfl) _

theorem modifiers_read (ms : List Modifier) :
    Reads modifiers (ms.map .modifier) Unmodified (· = ms) := by
  rw [List.map_eq_flatMap]
  refine (many_reads ms nextModifier_stops (fun _ _ => List.cons_ne_nil _ _)
    (fun _ _ _ => trivial) (fun _ _ => trivial) fun m _ => nextModifier_reads m).imp
    fun as same => ?_
  rwa [List.map_id, List.map_id'] at same

/-- Only a modifier can come in front of what is there without modifiers. -/
theorem modified_next_ne {kind : Kind} (other : kind.isModifier = false) {modifiers : List Modifier}
    {ms : List Mark} (bare : Mark.next ms ≠ kind) :
    Mark.next (modifiers.map .modifier ++ ms) ≠ kind := by
  cases modifiers with
  | nil => exact bare
  | cons m modifiers =>
    rintro rfl
    cases other

theorem typedMember_reads_field {f : Field} (formed : f.Formed) (start : Position) :
    Reads (typedMember .standard start f.modifiers)
      (f.type.shape.marks ++ (Declarator.listMarks f.declarators ++ [.punct .semicolon])) Anything
      (·.erase = (Member.field f).erase) := by
  unfold typedMember
  refine (typeExpr_reads formed.1).bind ?_ fun t typed => ?_
  · intro rest _
    rw [List.append_assoc]
    exact (listMarks_front formed.2 rest).1
  · refine .look fun c rest here _ => ?_
    rw [List.append_assoc] at here
    obtain ⟨_, noParen, noCurly⟩ := listMarks_front formed.2 rest
    rw [Cursor.kindAt_eq, here, if_neg (fun h => noParen h.2), if_neg (fun h => noCurly h.2)]
    refine .last (field_reads formed start typed) fun a same => ?_
    exact pure_reads (by rw [Member.erase, same, Member.erase]) _

theorem typedMember_reads_method {m : Method} (formed : m.Formed) {behind : List Mark}
    (ends : behind = [.punct .comma] ∧ m.parameters ≠ [] ∨ behind = []) (start : Position) :
    Reads (typedMember .standard start m.modifiers) (m.type.shape.marks ++ m.tail behind) Anything
      (·.erase = (Member.method m).erase) := by
  unfold typedMember
  refine (typeExpr_reads formed.1).bind (fun _ _ => rfl) fun t typed => ?_
  refine .look fun c rest here _ => ?_
  rw [Cursor.kind_eq, Cursor.kindAt_eq, here, if_pos ⟨rfl, rfl⟩]
  refine .last (method_reads formed ends start typed) fun a same => ?_
  exact pure_reads (by rw [Member.erase, same, Member.erase]) _

/-- A member whose modifiers are followed by its type. -/
theorem memberOf_reads_typed {modifiers : List Modifier} {shape : TypeShape} {ms : List Mark}
    {good : Member → Prop} (formed : shape.Formed)
    (named : ∀ rest, Mark.next (ms ++ rest) = .identifier)
    (reads : ∀ start,
      Reads (typedMember .standard start modifiers) (shape.marks ++ ms) Anything good)
    (inside : Parser (List Member)) :
    Opens (modifiers.map .modifier ++ (shape.marks ++ ms)) ∧
      Reads (memberOf .standard inside) (modifiers.map .modifier ++ (shape.marks ++ ms)) Anything
        good := by
  have other (rest : List Mark) (kind : Kind) (bare : kind.isPrimitive = false)
      (unnamed : kind ≠ .identifier) : Mark.next (shape.marks ++ ms ++ rest) ≠ kind := by
    rw [List.append_assoc]
    exact type_next_ne formed (named rest) kind bare unnamed
  constructor
  · have opens := other []
    rw [List.append_nil] at opens
    exact ⟨modified_next_ne rfl (opens _ rfl nofun), modified_next_ne rfl (opens _ rfl nofun)⟩
  · unfold memberOf
    refine .kind fun rest _ => ?_
    rw [List.append_assoc, if_neg (modified_next_ne rfl (other rest (.punct .semicolon) rfl nofun))]
    refine .skip position_reads (fun _ _ => trivial) fun start _ => ?_
    refine (modifiers_read modifiers).bind ?_ ?_
    · exact fun rest _ => unmodified_of_ne fun m => other rest (.modifier m) rfl nofun
    rintro _ rfl
    refine .look fun c rest here _ => ?_
    rw [Cursor.kind_eq, Cursor.kindAt_eq, here, List.append_assoc]
    obtain ⟨p, next⟩ | ⟨next, noParen, _⟩ := type_front formed (named rest)
    · rw [next]
      exact reads start
    · rw [next]
      dsimp only
      rw [if_neg noParen]
      exact reads start

theorem memberOf_reads_field {f : Field} (formed : f.Formed) (inside : Parser (List Member)) :
    Opens f.marks ∧ Reads (memberOf .standard inside) f.marks Anything
      (·.erase = (Member.field f).erase) := by
  refine memberOf_reads_typed formed.1 ?_ (typedMember_reads_field formed) inside
  intro rest
  rw [List.append_assoc]
  exact (listMarks_front formed.2 rest).1

theorem memberOf_reads_method {m : Method} (formed : m.Formed) {behind : List Mark}
    (ends : behind = [.punct .comma] ∧ m.parameters ≠ [] ∨ behind = [])
    (inside : Parser (List Member)) :
    Opens (m.marksWith behind) ∧ Reads (memberOf .standard inside) (m.marksWith behind) Anything
      (·.erase = (Member.method m).erase) :=
  memberOf_reads_typed formed.1 (fun _ => rfl) (typedMember_reads_method formed ends) inside

theorem memberOf_reads_empty (inside : Parser (List Member)) :
    Opens [.punct .semicolon] ∧
      Reads (memberOf .standard inside) [.punct .semicolon] Anything (· = .empty) := by
  refine ⟨⟨nofun, nofun⟩, ?_⟩
  unfold memberOf
  refine .kind_cons ?_
  rw [if_pos (by rfl)]
  refine .last (advance_reads _) fun _ _ => ?_
  exact pure_reads (by rfl) _

/-- A class from its keyword on. -/
theorem classOf_reads {inside : Parser (List Member)} {ms : List Mark}
    {good : List Member → Prop} (reads : Reads inside ms (Before (.punct .closeCurly)) good)
    (start : Position) (modifiers : List Modifier) (name : String) :
    Reads (classOf inside start modifiers)
      (.word .classWord :: .name name :: .punct .openCurly :: (ms ++ [.punct .closeCurly])) Anything
      fun c => ∃ members span, good members ∧ c = ⟨name, modifiers,
        members.filterMap Member.field?, members.filterMap Member.method?,
        members.filterMap Member.nested?, span⟩ := by
  unfold classOf
  refine .cons (take_reads rfl _) fun _ _ => ?_
  refine .cons (take_reads rfl _) fun t named => ?_
  have said := Token.value_of_name named
  refine .skip (refuse_reads _ _) (fun _ _ => nofun) fun _ _ => ?_
  refine .skip (refuse_reads _ _) (fun _ _ => nofun) fun _ _ => ?_
  refine .skip (refuse_reads _ _) (fun _ _ => nofun) fun _ _ => ?_
  refine .cons (expectPunct_reads _) fun _ _ => ?_
  refine reads.bind (fun _ _ => rfl) fun members made => ?_
  refine .last (expectPunct_reads _) fun _ _ => ?_
  exact spanFrom_reads (fun span => ⟨members, span, made, by rw [said]⟩) _

theorem memberOf_reads_class {inside : Parser (List Member)} {modifiers : List Modifier}
    {ms : List Mark} {good : Class → Prop}
    (reads : ∀ start,
      Reads (classOf inside start modifiers) (.word .classWord :: ms) Anything good) :
    Opens (modifiers.map .modifier ++ .word .classWord :: ms) ∧
      Reads (memberOf .standard inside) (modifiers.map .modifier ++ .word .classWord :: ms) Anything
        fun m => ∃ c, good c ∧ m = .nested c := by
  refine ⟨⟨modified_next_ne rfl nofun, modified_next_ne rfl nofun⟩, ?_⟩
  unfold memberOf
  refine .kind fun rest _ => ?_
  rw [if_neg (by rw [List.append_assoc]; exact modified_next_ne rfl nofun)]
  refine .skip position_reads (fun _ _ => trivial) fun start _ => ?_
  refine (modifiers_read modifiers).bind (fun _ _ => rfl) ?_
  rintro _ rfl
  refine .look fun c rest here _ => ?_
  rw [Cursor.kind_eq, here]
  refine .last (reads start) fun c made => ?_
  exact pure_reads ⟨c, made, by rfl⟩ _

theorem typeDeclaration_reads {modifiers : List Modifier} {ms : List Mark} {good : Class → Prop}
    (reads : ∀ depth start, ms.length ≤ depth →
      Reads (classOf (members .standard depth) start modifiers) (.word .classWord :: ms) Anything
        good) :
    Reads (typeDeclaration .standard) (modifiers.map .modifier ++ .word .classWord :: ms) Anything
      good := by
  unfold typeDeclaration
  refine .skip position_reads (fun _ _ => trivial) fun start _ => ?_
  refine (modifiers_read modifiers).bind (fun _ _ => rfl) ?_
  rintro _ rfl
  refine .look fun c rest here _ => ?_
  have room := congrArg List.length here
  rw [Cursor.length_marks, List.length_append, List.length_cons] at room
  rw [Cursor.kind_eq, here]
  exact reads _ start (by omega)

theorem wildcard_reads_star :
    Reads wildcard [.punct .dot, .punct .star] Anything (· = ".*") := by
  unfold wildcard
  refine .look fun c rest here _ => ?_
  rw [Cursor.kind_eq, Cursor.kindAt_eq, here, if_pos ⟨rfl, rfl⟩]
  refine .cons (advance_reads _) fun _ _ => ?_
  refine .last (advance_reads _) fun _ _ => ?_
  exact pure_reads (by rfl) _

theorem wildcard_reads_nothing : Reads wildcard [] (Before (.punct .semicolon)) (· = "") := by
  unfold wildcard
  refine .look fun c rest here after => ?_
  rw [if_neg]
  · exact pure_reads (by rfl) _
  · rintro ⟨dot, _⟩
    rw [Cursor.kind_eq, here] at dot
    exact absurd (after.symm.trans dot) nofun

theorem nextImport_stops :
    Reads nextImport [] (fun rest => Mark.next rest ≠ .keyword .importWord) (· = none) := by
  unfold nextImport
  refine .kind_nil fun rest after => ?_
  rw [if_neg after]
  exact pure_reads (by rfl) _

/-- An import of one name, or with a star of all names behind it. -/
theorem nextImport_reads (first : String) (others : List String) {star : List Mark} {all : String}
    (reads : Reads wildcard star (Before (.punct .semicolon)) (· = all))
    (follows : ∀ rest, NotDotted (star ++ .punct .semicolon :: rest)) :
    Reads nextImport
      (.word .importWord :: (Mark.dotted (first :: others) ++ (star ++ [.punct .semicolon])))
      Anything
      fun r => r.map Import.name = some (".".intercalate (first :: others) ++ all) := by
  unfold nextImport
  refine .kind_cons ?_
  rw [if_pos (by rfl)]
  refine .map ?_
  unfold importDeclaration
  refine .cons (advance_reads _) fun _ _ => ?_
  refine (qualifiedName_reads first others).bind ?_ ?_
  · intro rest _
    rw [List.append_assoc]
    exact follows rest
  · rintro _ rfl
    refine reads.bind (fun _ _ => rfl) ?_
    rintro _ rfl
    refine .last (expectPunct_reads _) fun _ _ => ?_
    exact spanFrom_reads (fun _ => by rfl) _

theorem packageName_reads_nothing :
    Reads packageName [] (fun rest => Mark.next rest ≠ .keyword .packageWord) (· = none) := by
  unfold packageName
  refine .kind_nil fun rest after => ?_
  rw [if_neg after]
  exact pure_reads (by rfl) _

theorem packageName_reads (first : String) (others : List String) :
    Reads packageName
      (.word .packageWord :: (Mark.dotted (first :: others) ++ [.punct .semicolon])) Anything
      (· = some (".".intercalate (first :: others))) := by
  unfold packageName
  refine .kind_cons ?_
  rw [if_pos (by rfl)]
  refine .cons (advance_reads _) fun _ _ => ?_
  refine (qualifiedName_reads first others).bind (fun _ _ => nofun) ?_
  rintro _ rfl
  refine .last (expectPunct_reads _) fun _ _ => ?_
  exact pure_reads (by rfl) _

theorem nextClass_stops : Reads (nextClass .standard) [] (Before .eof) (· = none) := by
  unfold nextClass
  refine .kind_nil fun rest after => ?_
  rw [show Mark.next rest = _ from after]
  exact pure_reads (by rfl) _

theorem nextClass_reads_semicolon :
    Reads (nextClass .standard) [.punct .semicolon] Anything (· = some none) := by
  unfold nextClass
  refine .kind_cons ?_
  refine .last (advance_reads _) fun _ _ => ?_
  exact pure_reads (by rfl) _

theorem nextClass_reads_class {modifiers : List Modifier} {ms : List Mark} {good : Class → Prop}
    (reads : Reads (typeDeclaration .standard) (modifiers.map .modifier ++ .word .classWord :: ms)
      Anything good) :
    Reads (nextClass .standard) (modifiers.map .modifier ++ .word .classWord :: ms) Anything
      fun r => ∃ c, good c ∧ r = some (some c) := by
  unfold nextClass
  refine .kind fun rest _ => ?_
  rw [List.append_assoc]
  split
  · rename_i ending
    exact absurd ending (modified_next_ne rfl nofun)
  · rename_i semicolon
    exact absurd semicolon (modified_next_ne rfl nofun)
  · refine .last reads fun c made => ?_
    exact pure_reads ⟨c, made, by rfl⟩ _

/-- The parts of a unit, each where it cannot be taken for the part before it. -/
theorem compilationUnit_reads {package imports classes : List Mark} {P : Option String → Prop}
    {I : List Import → Prop} {C : List (Option Class) → Prop}
    (readPackage : Reads packageName package (fun rest => Mark.next rest ≠ .keyword .packageWord) P)
    (readImports : Reads (many nextImport) imports
      (fun rest => Mark.next rest ≠ .keyword .importWord) I)
    (readClasses : Reads (many (nextClass .standard)) classes (Before .eof) C)
    (imported : ∀ rest, Before .eof rest →
      Mark.next (imports ++ (classes ++ rest)) ≠ .keyword .packageWord)
    (declared : ∀ rest, Before .eof rest → Mark.next (classes ++ rest) ≠ .keyword .importWord) :
    Reads (compilationUnit .standard) (package ++ (imports ++ classes)) (Before .eof)
      fun u => P u.package ∧ I u.imports ∧ ∃ cs, C cs ∧ u.classes = cs.filterMap id := by
  unfold compilationUnit
  refine .skip position_reads (fun _ _ => trivial) fun start _ => ?_
  refine readPackage.bind ?_ fun p made => ?_
  · intro rest after
    rw [List.append_assoc]
    exact imported rest after
  · refine readImports.bind declared fun is madeImports => ?_
    refine .last readClasses fun cs madeClasses => ?_
    exact spanFrom_reads (fun _ => ⟨made, madeImports, cs, madeClasses, by rfl⟩) _

end Javelet.Parser
