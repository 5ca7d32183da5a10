import Javelet.Proofs.Onward

namespace Javelet

namespace Cursor

variable {c : Cursor}

theorem passes_name (here : c.kind = .identifier) : c.Passes c.advance :=
  passes_advance (by simp [here])

theorem passes_punct {p : Punct} (here : c.kind = .punct p) : c.Passes c.advance :=
  passes_advance (by simp [here])

theorem passes_word {w : Keyword} (here : c.kind = .keyword w) : c.Passes c.advance :=
  passes_advance (by simp [here])

/-- The span of a token that is taken. -/
theorem span_current (inside : c.kind ≠ .eof) :
    c.current.span = ⟨c.position, c.advance.previousEnd⟩ := by
  obtain ⟨t, rest, here⟩ := List.exists_cons_of_ne_nil (c.ahead_ne_nil inside)
  simp [position, current, advance, here]

end Cursor

theorem TypeExpr.position_foldl_array (suffixes : List Unit) (t : TypeExpr) :
    (suffixes.foldl (fun element _ => element.array) t).position = t.position := by
  induction suffixes generalizing t with
  | nil => rfl
  | cons _ rest ih => exact ih t.array

namespace Parser

variable {α : Type} (g : Grammar) {c c' : Cursor}

/-- What each item makes of its tokens, many of them make of theirs, one behind the other. -/
theorem many_row {item : Parser (Option α)} {R : α → Cursor → Cursor → Prop}
    (shrinks : Shrinks item) (offers : ∀ c r c', item.run c = .ok r c' → Row R r.toList c c')
    {xs : List α} (run : (many item).run c = .ok xs c') : Row R xs c c' := by
  have items := many_ok shrinks run
  clear run
  induction items with
  | none ended => exact offers _ _ _ ended
  | some ran _ ih => exact (offers _ _ _ ran).append ih

theorem typeHead_extent {t : TypeExpr} (run : (typeHead g).run c = .ok t c') :
    c.Passes c' ∧ t.position = c.position := by
  obtain named | bare := typeHead_ok g run
  · obtain ⟨_, here, dotted, start⟩ := namedType_ok named
    have first := Cursor.passes_name here
    exact ⟨first.trans_leads (leads_of_ok (fun _ => dottedNames_inStep) dotted), start⟩
  · obtain ⟨p, here, rfl, rfl⟩ := primitiveType_ok bare
    exact ⟨Cursor.passes_advance (by simp [here]), rfl⟩

theorem typeExpr_extent {floor : Power} {t : TypeExpr}
    (run : (typeExpr g floor).run c = .ok t c') : c.Passes c' ∧ t.position = c.position := by
  obtain ⟨head, suffixes, m, begun, suffixed, rfl⟩ := typeExpr_ok g run
  obtain ⟨passes, start⟩ := typeHead_extent g begun
  have further := leads_of_ok (fun _ => typeSuffixes_inStep g floor) suffixed
  refine ⟨passes.trans_leads further, ?_⟩
  rw [TypeExpr.position_foldl_array, start]

/-- An expression is one token. -/
theorem Expression.laid_advance {e : Expression} (inside : c.kind ≠ .eof)
    (span : e.span = c.current.span) (shown : c.current.Shows e.text)
    (names : ∀ name ∈ e.names, c.kind = .identifier ∧ c.current.value = name) :
    e.outline.Laid c c.advance := by
  refine .intro ⟨Cursor.passes_advance inside, span.trans (Cursor.span_current inside), ?_, ?_, ?_⟩
    (List.forall_mem_nil _)
  · rintro _ ⟨⟩
    exact ⟨rfl, shown⟩
  · intro name member
    exact ⟨c, .refl c, names name member⟩
  · exact List.forall_mem_nil _

theorem expression_laid {floor : Power} {e : Expression}
    (run : (expression g floor).run c = .ok e c') : e.outline.Laid c c' := by
  have word {w : Keyword} (text : String) {e : Expression} (here : c.kind = .keyword w)
      (reserved : (text, Kind.keyword w) ∈ Kind.reserved) (spelled : e.text = text)
      (span : e.span = c.current.span) (nameless : e.names = []) : e.outline.Laid c c.advance := by
    rw [← spelled, ← here] at reserved
    apply Expression.laid_advance (by simp [here]) span (.inr reserved)
    rw [nameless]
    exact List.forall_mem_nil _
  obtain ⟨shape, rfl⟩ := primary_ok (operand_ok g (expression_ok g run))
  cases shape with
  | number here _ =>
    exact Expression.laid_advance (by simp [Cursor.kind, here]) rfl (.inl ⟨.inr here, rfl⟩)
      (List.forall_mem_nil _)
  | name here =>
    exact Expression.laid_advance (by simp [Cursor.kind, here]) rfl (.inl ⟨.inl here, rfl⟩)
      (List.forall_mem_singleton.mpr ⟨here, rfl⟩)
  | yes here => exact word "true" here (by decide) rfl rfl rfl
  | no here => exact word "false" here (by decide) rfl rfl rfl
  | null here => exact word "null" here (by decide) rfl rfl rfl

theorem initializer_row {value : Option Expression}
    (run : (initializer g).run c = .ok value c') :
    Row (fun e => e.outline.Laid) value.toList c c' := by
  obtain ⟨rfl, rfl⟩ | ⟨e, rfl, assign, ran⟩ := initializer_ok g run
  · exact .nil (.refl c')
  · have first := Cursor.passes_punct assign
    exact .after first.leads (.one (expression_laid g ran))

theorem declarator_laid {d : Declarator} (run : (declarator g).run c = .ok d c') :
    d.outline.Laid c c' := by
  obtain ⟨value, here, valued, rfl⟩ := declarator_ok g run
  have row := initializer_row g valued
  have first := Cursor.passes_name here
  apply Outline.Laid.of_part rfl (first.trans_leads row.leads_laid) rfl
  · exact List.forall_mem_singleton.mpr ⟨c, .refl c, here, rfl⟩
  · exact List.forall_mem_nil _
  · exact List.forall_mem_singleton.mpr (row.outlines.after first.leads)

theorem nextDeclarator_row {r : Option Declarator} (run : (nextDeclarator g).run c = .ok r c') :
    Row (fun d => d.outline.Laid) r.toList c c' := by
  obtain ⟨rfl, rfl⟩ | ⟨d, rfl, comma, ran⟩ := nextDeclarator_ok g run
  · exact .nil (.refl c')
  · have first := Cursor.passes_punct comma
    exact .after first.leads (.one (declarator_laid g ran))

theorem declarators_row {ds : List Declarator} (run : (declarators g).run c = .ok ds c') :
    Row (fun d => d.outline.Laid) ds c c' := by
  obtain ⟨first, others, m, ran, ranOthers, rfl⟩ := declarators_ok g run
  have shrinks := (nextDeclarator_offers g).shrinks rfl
  have rest := many_row shrinks (fun _ _ _ => nextDeclarator_row g) ranOthers
  exact .cons (.refl c) (declarator_laid g ran) rest

theorem localDeclaration_laid {d : LocalDeclaration}
    (run : (localDeclaration g).run c = .ok d c') : d.outline.Laid c c' := by
  obtain ⟨type, ds, m, m', typed, declared, closes, rfl, rfl⟩ := localDeclaration_ok g run
  obtain ⟨first, start⟩ := typeExpr_extent g typed
  have row := declarators_row g declared
  have last := (Cursor.passes_punct closes).leads
  have passes := first.trans_leads (row.leads_laid.trans last)
  apply Outline.Laid.of_part rfl passes rfl
  · exact List.forall_mem_nil _
  · exact List.forall_mem_singleton.mpr ⟨c, .refl c, passes, start.symm⟩
  · exact List.forall_mem_singleton.mpr ((row.outlines.before last).after first.leads)

theorem blockOf_laid {inside : Parser (List Statement)}
    (row : ∀ c body c', inside.run c = .ok body c' → Row (fun s => s.outline.Laid) body c c')
    {b : Block} (run : (blockOf inside).run c = .ok b c') : b.outline.Laid c c' := by
  obtain ⟨body, m, opens, ran, closes, rfl, rfl⟩ := blockOf_ok run
  have first := Cursor.passes_punct opens
  have last := (Cursor.passes_punct closes).leads
  have between := row _ _ _ ran
  apply Outline.Laid.of_part rfl (first.trans_leads (between.leads_laid.trans last)) rfl
  · exact List.forall_mem_nil _
  · exact List.forall_mem_nil _
  · exact List.forall_mem_singleton.mpr ((between.outlines.before last).after first.leads)

theorem Statement.outline_ofBlock (b : Block) : (Statement.ofBlock b).outline = b.outline := by
  rw [Statement.ofBlock, Statement.outline, Statement.outlines_eq_map, Block.outline]

theorem statementOf_laid {inside : Parser (List Statement)}
    (row : ∀ c body c', inside.run c = .ok body c' → Row (fun s => s.outline.Laid) body c c')
    {s : Statement} (run : (statementOf g inside).run c = .ok s c') : s.outline.Laid c c' := by
  obtain ⟨b, ran, rfl⟩ | ⟨d, ran, rfl⟩ := statementOf_ok g run
  · rw [Statement.outline_ofBlock]
    exact blockOf_laid row ran
  · rw [Statement.outline]
    exact localDeclaration_laid g ran

theorem nextInBraces_row {item : Parser α} {R : α → Cursor → Cursor → Prop}
    (each : ∀ c a c', item.run c = .ok a c' → R a c c') {r : Option α}
    (run : (nextInBraces item).run c = .ok r c') : Row R r.toList c c' := by
  obtain ⟨rfl, rfl⟩ | ⟨a, rfl, ran⟩ := nextInBraces_ok run
  · exact .nil (.refl c')
  · exact .one (each c a c' ran)

theorem statements_row (depth : Nat) {body : List Statement}
    (run : (statements g depth).run c = .ok body c') :
    Row (fun s => s.outline.Laid) body c c' := by
  induction depth generalizing c c' body with
  | zero => cases run
  | succ depth ih =>
    rw [statements] at run
    refine many_row (statementOf_shrinks g depth) (fun _ _ _ => nextInBraces_row ?_) run
    exact fun _ _ _ => statementOf_laid g fun _ _ _ => ih

theorem block_laid {b : Block} (run : (block g).run c = .ok b c') : b.outline.Laid c c' :=
  blockOf_laid (fun c _ _ ran => statements_row g (c.ahead.length + 1) ran) run

theorem parameter_laid {p : Parameter} (run : (parameter g).run c = .ok p c') :
    p.outline.Laid c c' := by
  obtain ⟨type, m, typed, here, rfl, rfl⟩ := parameter_ok g run
  obtain ⟨first, start⟩ := typeExpr_extent g typed
  have last := Cursor.passes_name here
  have passes := first.trans_leads last.leads
  apply Outline.Laid.of_part rfl passes rfl
  · exact List.forall_mem_singleton.mpr ⟨m, first.leads, here, rfl⟩
  · exact List.forall_mem_singleton.mpr ⟨c, .refl c, passes, start.symm⟩
  · exact List.forall_mem_nil _

theorem nextParameter_row {r : Option Parameter} (run : (nextParameter g).run c = .ok r c') :
    Row (fun p => p.outline.Laid) r.toList c c' := by
  obtain ⟨rfl, rfl⟩ | ⟨p, m, rfl, ran, ⟨comma, rfl⟩ | ⟨_, rfl⟩⟩ := nextParameter_ok g run
  · exact .nil (.refl c')
  · have last := Cursor.passes_punct comma
    exact .before (.one (parameter_laid g ran)) last.leads
  · exact .one (parameter_laid g ran)

theorem methodBody_passes {body : Option Block} (run : (methodBody g).run c = .ok body c') :
    c.Passes c' := by
  obtain ⟨_, here, rfl⟩ | ⟨b, _, ran⟩ := methodBody_ok g run
  · exact Cursor.passes_punct here
  · exact (block_laid g ran).fits.passes

theorem methodBody_row {body : Option Block} (run : (methodBody g).run c = .ok body c') :
    Row (fun b => b.outline.Laid) body.toList c c' := by
  obtain ⟨rfl, _, _⟩ | ⟨b, rfl, ran⟩ := methodBody_ok g run
  · exact .nil (methodBody_passes g run).leads
  · exact .one (block_laid g ran)

/-- Where a member begins, where its type is and where its type ends. -/
structure Begun (c a m : Cursor) (type : TypeExpr) : Prop where
  modified : c.Leads a
  typed : a.Passes m
  type_eq : type.position = a.position

variable {a m : Cursor} {ms : List Modifier} {type : TypeExpr}

theorem method_laid {x : Method} (begun : Begun c a m type)
    (run : (method g c.position ms type).run m = .ok x c') : x.outline.Laid c c' := by
  obtain ⟨ps, body, m', here, opens, listed, closes, ran, rfl⟩ := method_ok g run
  have parameters := many_row (nextParameter_shrinks g) (fun _ _ _ => nextParameter_row g) listed
  have block := methodBody_row g ran
  have toName := begun.modified.trans begun.typed.leads
  have fromName : m.Leads m.advance.advance :=
    (Cursor.passes_name here).leads.trans (Cursor.passes_punct opens).leads
  have closing := (Cursor.passes_punct closes).leads
  have toBody := parameters.leads_laid.trans closing
  have typed := begun.typed.trans_leads (fromName.trans (toBody.trans block.leads_laid))
  apply Outline.Laid.of_part rfl (begun.modified.trans_passes typed) rfl
  · exact List.forall_mem_singleton.mpr ⟨m, toName, here, rfl⟩
  · exact List.forall_mem_singleton.mpr ⟨a, begun.modified, typed, begun.type_eq.symm⟩
  · refine List.forall_mem_cons.mpr ⟨?_, List.forall_mem_singleton.mpr ?_⟩
    · have behind := closing.trans block.leads_laid
      exact (parameters.outlines.before behind).after (toName.trans fromName)
    · exact block.outlines.after ((toName.trans fromName).trans toBody)

theorem field_laid {x : Field} (begun : Begun c a m type)
    (run : (field g c.position ms type).run m = .ok x c') : x.outline.Laid c c' := by
  obtain ⟨ds, m', declared, closes, rfl, rfl⟩ := field_ok g run
  have row := declarators_row g declared
  have last := (Cursor.passes_punct closes).leads
  have typed := begun.typed.trans_leads (row.leads_laid.trans last)
  have toRow := begun.modified.trans begun.typed.leads
  apply Outline.Laid.of_part rfl (begun.modified.trans_passes typed) rfl
  · exact List.forall_mem_nil _
  · exact List.forall_mem_singleton.mpr ⟨a, begun.modified, typed, begun.type_eq.symm⟩
  · exact List.forall_mem_singleton.mpr ((row.outlines.before last).after toRow)

/-- Holds of a member that is read, if of a class it does whenever it does of the members. -/
structure Hereditary (P : Member → Cursor → Cursor → Prop) : Prop where
  empty : ∀ {c}, c.kind = .punct .semicolon → P .empty c c.advance
  field : ∀ {c a m c' ms type x}, Begun c a m type →
    (field g c.position ms type).run m = .ok x c' → P (.field x) c c'
  method : ∀ {c a m c' ms type x}, Begun c a m type →
    (method g c.position ms type).run m = .ok x c' → P (.method x) c c'
  nested : ∀ {inside : Parser (List Member)} {c m c' ms k},
    (∀ c xs c', inside.run c = .ok xs c' → Row P xs c c') → c.Leads m →
      (classOf inside c.position ms).run m = .ok k c' → P (.nested k) c c'

namespace Hereditary

variable {g} {P : Member → Cursor → Cursor → Prop} (hereditary : Hereditary g P)

include hereditary

theorem memberOf {inside : Parser (List Member)}
    (row : ∀ c xs c', inside.run c = .ok xs c' → Row P xs c c') {x : Member}
    (run : (memberOf g inside).run c = .ok x c') : P x c c' := by
  obtain ⟨rfl, here, rfl⟩ | ⟨ms, m, ran, further⟩ := memberOf_ok g run
  · exact hereditary.empty here
  · have modified := leads_of_ok (fun _ => modifiers_inStep) ran
    obtain ⟨k, own, rfl⟩ | own := further
    · exact hereditary.nested row modified own
    · obtain ⟨type, m', typed, last⟩ := typedMember_ok g own
      obtain ⟨passes, start⟩ := typeExpr_extent g typed
      have begun : Begun c m m' type := ⟨modified, passes, start⟩
      obtain ⟨x, rest, rfl⟩ | ⟨x, rest, rfl⟩ := last
      · exact hereditary.field begun rest
      · exact hereditary.method begun rest

theorem members (depth : Nat) {xs : List Member} (run : (members g depth).run c = .ok xs c') :
    Row P xs c c' := by
  induction depth generalizing c c' xs with
  | zero => cases run
  | succ depth ih =>
    rw [Parser.members] at run
    refine many_row (memberOf_shrinks g depth) (fun _ _ _ => nextInBraces_row ?_) run
    exact fun _ _ _ => hereditary.memberOf fun _ _ _ => ih

theorem typeDeclaration {k : Class} (run : (typeDeclaration g).run c = .ok k c') :
    P (.nested k) c c' := by
  obtain ⟨ms, m, ran, own⟩ := typeDeclaration_ok g run
  have modified := leads_of_ok (fun _ => modifiers_inStep) ran
  exact hereditary.nested (fun _ _ _ => hereditary.members _) modified own

end Hereditary

/-- What a member lays down, if it is more than a semicolon. -/
def Member.Laid : Member → Cursor → Cursor → Prop
  | .empty => Cursor.Leads
  | .field f => f.outline.Laid
  | .method m => m.outline.Laid
  | .nested k => k.outline.Laid

theorem Member.Laid.leads {x : Member} (h : Member.Laid x c c') : c.Leads c' := by
  cases x with
  | empty => exact h
  | field f => exact Outline.Laid.leads h
  | method m => exact Outline.Laid.leads h
  | nested k => exact Outline.Laid.leads h

/-- The members of one sort are a row, whatever stands between them. -/
theorem Member.row_fields {xs : List Member} (row : Row Member.Laid xs c c') :
    Row (fun f => f.outline.Laid) (xs.filterMap Member.field?) c c' := by
  refine row.filterMap fun x _ a b laid => ?_
  cases x with
  | field f => exact .one laid
  | _ => exact .nil laid.leads

theorem Member.row_methods {xs : List Member} (row : Row Member.Laid xs c c') :
    Row (fun m => m.outline.Laid) (xs.filterMap Member.method?) c c' := by
  refine row.filterMap fun x _ a b laid => ?_
  cases x with
  | method m => exact .one laid
  | _ => exact .nil laid.leads

theorem Member.row_nested {xs : List Member} (row : Row Member.Laid xs c c') :
    Row (fun k => k.outline.Laid) (xs.filterMap Member.nested?) c c' := by
  refine row.filterMap fun x _ a b laid => ?_
  cases x with
  | nested k => exact .one laid
  | _ => exact .nil laid.leads

theorem classOf_laid {inside : Parser (List Member)}
    (row : ∀ c xs c', inside.run c = .ok xs c' → Row Member.Laid xs c c') {k : Class}
    (modified : c.Leads m) (run : (classOf inside c.position ms).run m = .ok k c') :
    k.outline.Laid c c' := by
  obtain ⟨xs, m', word, here, opens, ran, closes, rfl, rfl⟩ := classOf_ok run
  have toName := modified.trans_passes (Cursor.passes_word word)
  have name := (Cursor.passes_name here).leads
  have brace := (Cursor.passes_punct opens).leads
  have toMembers := toName.trans_leads (name.trans brace)
  have members := row _ _ _ ran
  have last := (Cursor.passes_punct closes).leads
  have between := members.leads fun _ _ _ _ laid => laid.leads
  have inside {α : Type} {f : α → Outline} {ys : List α}
      (part : Row (fun y => (f y).Laid) ys m.advance.advance.advance m') :
      Row Outline.Laid (ys.map f) c m'.advance :=
    (part.outlines.before last).after toMembers.leads
  rw [Class.outline_eq]
  apply Outline.Laid.of_part rfl (toMembers.trans_leads (between.trans last)) rfl
  · exact List.forall_mem_singleton.mpr ⟨m.advance, toName.leads, here, rfl⟩
  · exact List.forall_mem_nil _
  · refine List.forall_mem_cons.mpr ⟨inside (Member.row_fields members), ?_⟩
    refine List.forall_mem_cons.mpr ⟨inside (Member.row_methods members), ?_⟩
    exact List.forall_mem_singleton.mpr (inside (Member.row_nested members))

theorem Member.laid_hereditary : Hereditary g Member.Laid where
  empty here := (Cursor.passes_punct here).leads
  field begun run := field_laid g begun run
  method begun run := method_laid g begun run
  nested row modified run := classOf_laid row modified run

theorem nextImport_row {r : Option Import} (run : nextImport.run c = .ok r c') :
    Row (fun i => i.outline.Laid) r.toList c c' := by
  obtain ⟨rfl, rfl⟩ | ⟨name, all, m, m', here, named, starred, closes, rfl, rfl⟩ :=
    nextImport_ok run
  · exact .nil (.refl c')
  · have first := Cursor.passes_word here
    have name := leads_of_ok (fun _ => qualifiedName_inStep) named
    have star := leads_of_ok (fun _ => wildcard_inStep) starred
    have last := (Cursor.passes_punct closes).leads
    refine .one (.of_part rfl (first.trans_leads (name.trans (star.trans last))) rfl ?_ ?_ ?_)
    · exact List.forall_mem_nil _
    · exact List.forall_mem_nil _
    · exact List.forall_mem_nil _

/-- A semicolon is an item, but no class. -/
theorem nextClass_row {P : Member → Cursor → Cursor → Prop} (hereditary : Hereditary g P)
    {r : Option (Option Class)} (run : (nextClass g).run c = .ok r c') :
    Row (fun k => Row (fun k => P (.nested k)) k.toList) r.toList c c' := by
  obtain ⟨rfl, _, rfl⟩ | ⟨rfl, here, rfl⟩ | ⟨k, rfl, ran⟩ := nextClass_ok g run
  · exact .nil (.refl c')
  · exact .one (.nil (Cursor.passes_punct here).leads)
  · exact .one (.one (hereditary.typeDeclaration ran))

/-- The imports and then the classes of a unit. -/
theorem compilationUnit_parts {P : Member → Cursor → Cursor → Prop} (hereditary : Hereditary g P)
    {u : CompilationUnit} (run : (compilationUnit g).run c = .ok u c') :
    u.span = ⟨c.position, c'.previousEnd⟩ ∧ ∃ m m', c.Leads m ∧
      Row (fun i => i.outline.Laid) u.imports m m' ∧
      Row (fun k => P (.nested k)) u.classes m' c' := by
  obtain ⟨package, imports, items, m, m', packaged, imported, declared, rfl⟩ :=
    compilationUnit_ok g run
  refine ⟨rfl, m, m', leads_of_ok (fun _ => packageName_inStep) packaged, ?_, ?_⟩
  · exact many_row (nextImport_offers.shrinks rfl) (fun _ _ _ => nextImport_row) imported
  · have shrinks := (nextClass_offers g).shrinks rfl
    have row := many_row shrinks (fun _ _ _ => nextClass_row g hereditary) declared
    exact row.filterMap fun _ _ _ _ item => item

theorem compilationUnit_rows {u : CompilationUnit} (run : (compilationUnit g).run c = .ok u c') :
    u.span = ⟨c.position, c'.previousEnd⟩ ∧ ∀ row ∈ u.outline.rows, Row Outline.Laid row c c' := by
  obtain ⟨span, m, m', first, imports, classes⟩ :=
    compilationUnit_parts g (Member.laid_hereditary g) run
  have classes : Row (fun k => k.outline.Laid) u.classes m' c' := classes
  refine ⟨span, List.forall_mem_cons.mpr ⟨?_, List.forall_mem_singleton.mpr ?_⟩⟩
  · exact (imports.outlines.before classes.leads_laid).after first
  · exact classes.outlines.after (first.trans imports.leads_laid)

/-- A unit that is not empty is laid on all the tokens of the stream. -/
theorem compilationUnit_laid {u : CompilationUnit} (inside : c.kind ≠ .eof)
    (run : (compilationUnit g).run c = .ok u c') : u.outline.Laid c c' := by
  have ended := (compilationUnit_between g run).2
  obtain ⟨span, rows⟩ := compilationUnit_rows g run
  have leads : c.Leads c' := (rows _ List.mem_cons_self).leads fun _ _ _ _ laid => laid.leads
  have passes : c.Passes c' := by
    refine (Relation.reflTransGen_iff_eq_or_transGen.mp leads).resolve_left ?_
    rintro rfl
    exact inside ended
  exact .of_part rfl passes span (List.forall_mem_nil _) (List.forall_mem_nil _) rows

end Parser
end Javelet
