import Javelet.Proofs.Derivable
import Javelet.Proofs.Reparsing

namespace Javelet
open Phrase (Covers symbol covers_symbol_iff covers_seq_iff covers_either_iff covers_optional_iff
  covers_many_iff covers_punct_iff covers_word_iff)

namespace Parser

variable {α : Type}

theorem many_accepts {item : Parser (Option α)} {inner outer : List Mark → Prop}
    {good : α → Prop} {parts : List (List Mark)} (stops : Reads item [] outer (· = none))
    (solid : ∀ part ∈ parts, part ≠ []) (starts : ∀ part ∈ parts, ∀ rest, inner (part ++ rest))
    (ends : ∀ rest, outer rest → inner rest)
    (each : ∀ part ∈ parts, Reads item part inner fun r => ∃ a, r = some a ∧ good a) :
    Reads (many item) parts.flatten outer fun as => ∀ a ∈ as, good a := by
  have read : Reads (many item) (parts.flatMap id) outer
      fun as => as.map good = parts.map fun _ => True := by
    refine many_reads parts stops solid starts ends fun part member => ?_
    refine (each part member).imp ?_
    rintro _ ⟨a, rfl, found⟩
    simp [found]
  rw [List.flatMap_id] at read
  refine read.imp fun as same a member => ?_
  have shown : good a ∈ parts.map fun _ => True := same ▸ List.mem_map_of_mem member
  obtain ⟨_, _, found⟩ := List.mem_map.mp shown
  exact found ▸ trivial

theorem members_accept {parts : List (List Mark)} {depth : Nat}
    (each : ∀ part ∈ parts, Opens part ∧
      Reads (memberOf .standard (members .standard depth)) part Anything (·.marks ⊆ part)) :
    Reads (members .standard (depth + 1)) parts.flatten (Before (.punct .closeCurly))
      fun as => ∀ a ∈ as, a.marks ⊆ parts.flatten := by
  rw [members]
  refine many_accepts (nextInBraces_stops _) (fun part member => (each part member).1.ne_nil)
    (fun _ _ _ => trivial) (fun _ _ => trivial) fun part member => ?_
  obtain ⟨opens, reads⟩ := each part member
  refine nextInBraces_reads opens (reads.imp fun a own => ⟨a, rfl, ?_⟩)
  exact List.Subset.trans own (List.sublist_flatten_of_mem member).subset

/-- What is written of a class is its name and modifiers, and what is written of its members. -/
theorem marks_of_members {name : String} {modifiers : List Modifier} {read : List Member}
    {ms : List Mark} (span : Span) (each : ∀ a ∈ read, a.marks ⊆ ms) :
    Class.marks ⟨name, modifiers, read.filterMap Member.field?, read.filterMap Member.method?,
      read.filterMap Member.nested?, span⟩ ⊆
      modifiers.map .modifier ++
        .word .classWord :: .name name :: .punct .openCurly :: (ms ++ [.punct .closeCurly]) := by
  have inside : ∀ a ∈ Class.members ⟨name, modifiers, read.filterMap Member.field?,
      read.filterMap Member.method?, read.filterMap Member.nested?, span⟩, a.marks ⊆ ms := by
    intro a member
    simp only [Class.members, List.mem_append, List.mem_map, List.mem_filterMap] at member
    obtain (⟨f, ⟨b, own, is⟩, rfl⟩ | ⟨m, ⟨b, own, is⟩, rfl⟩) | ⟨c, ⟨b, own, is⟩, rfl⟩ := member
    all_goals
      cases b <;> cases is
      exact each _ own
  have flat : (Class.members ⟨name, modifiers, read.filterMap Member.field?,
      read.filterMap Member.method?, read.filterMap Member.nested?, span⟩).flatMap Member.marks ⊆
      ms := by
    intro m member
    obtain ⟨a, own, here⟩ := List.mem_flatMap.mp member
    exact inside a own here
  intro m member
  rw [Class.marks_eq] at member
  simp only [List.mem_append, List.mem_cons] at member ⊢
  have here := @flat m
  tauto

theorem marks_of_field {a : Member} {f : Field} (same : a.erase = (Member.field f).erase) :
    a.marks = f.marks := by
  cases a with
  | field g => rw [Member.marks, ← Field.marks_erase, Member.field.inj same, Field.marks_erase]
  | empty | method | nested => cases same

theorem marks_of_method {a : Member} {m : Method} (same : a.erase = (Member.method m).erase) :
    a.marks = m.marks := by
  cases a with
  | method n => rw [Member.marks, ← Method.marks_erase, Member.method.inj same, Method.marks_erase]
  | empty | field | nested => cases same

/-- By induction on the depth, as for statements: the members of a class are read with one level
less, and are shorter than the class. -/
theorem memberOf_accepts {ms : List Mark} (covered : (symbol .member).Covers ms) {depth : Nat}
    (enough : ms.length ≤ depth) :
    Opens ms ∧
      Reads (memberOf .standard (members .standard depth)) ms Anything (·.marks ⊆ ms) := by
  have accepts {P : Member → Prop} {ms : List Mark} {r : Parser Member}
      (h : Opens ms ∧ Reads r ms Anything P) (good : ∀ a, P a → a.marks ⊆ ms) :
      Opens ms ∧ Reads r ms Anything (·.marks ⊆ ms) :=
    ⟨h.1, h.2.imp good⟩
  induction depth generalizing ms with
  | zero =>
    have some := List.length_pos_iff.mpr (covered.ne_nil rfl)
    omega
  | succ depth ih =>
    have alternatives := (covers_symbol_iff ..).mp covered
    simp only [Nonterminal.production, covers_either_iff] at alternatives
    obtain ((semicolon | declared) | field) | method := alternatives
    · rw [(covers_punct_iff ..).mp semicolon]
      refine accepts (memberOf_reads_empty _) ?_
      rintro _ rfl
      exact List.Subset.refl _
    · obtain ⟨modifiers, name, parts, rfl, each⟩ := Class.exists_of_covers declared
      have inside := members_accept fun part member => by
        have shorter := (List.sublist_flatten_of_mem member).length_le
        simp only [List.length_append, List.length_cons] at enough
        exact ih (each part member) (by omega)
      refine accepts (memberOf_reads_class fun start => classOf_reads inside start modifiers name)
        ?_
      rintro _ ⟨_, ⟨read, span, made, rfl⟩, rfl⟩
      exact marks_of_members span made
    · obtain ⟨f, formed, rfl⟩ := Field.exists_of_covers field
      refine accepts (memberOf_reads_field formed _) fun a same => ?_
      rw [marks_of_field same]
      exact List.Subset.refl _
    · obtain ⟨m, behind, formed, rfl, ends⟩ := Method.exists_of_covers method
      refine accepts (memberOf_reads_method formed ends _) fun a same => ?_
      rw [marks_of_method same]
      exact m.marks_subset_marksWith behind

theorem classOf_accepts {parts : List (List Mark)}
    (each : ∀ part ∈ parts, (symbol .member).Covers part) {depth : Nat}
    (enough : parts.flatten.length < depth) (start : Position) (modifiers : List Modifier)
    (name : String) :
    Reads (classOf (members .standard depth) start modifiers) (.word .classWord :: .name name ::
      .punct .openCurly :: (parts.flatten ++ [.punct .closeCurly])) Anything
      (·.marks ⊆ modifiers.map .modifier ++ .word .classWord :: .name name :: .punct .openCurly ::
        (parts.flatten ++ [.punct .closeCurly])) := by
  obtain ⟨depth, rfl⟩ : ∃ k, depth = k + 1 := ⟨depth - 1, by omega⟩
  have inside := members_accept fun part member => by
    have shorter := (List.sublist_flatten_of_mem member).length_le
    have fits := Nat.le_of_lt_succ (Nat.lt_of_le_of_lt shorter enough)
    exact memberOf_accepts (each part member) fits
  refine (classOf_reads inside start modifiers name).imp ?_
  rintro _ ⟨read, span, made, rfl⟩
  exact marks_of_members span made

/-- A class or a semicolon on the level of the unit. Neither begins like an import or a package. -/
theorem nextClass_accepts {ms : List Mark}
    (covered : (Phrase.punct .semicolon ||| symbol .classDeclaration).Covers ms) :
    (∀ w ∈ [Keyword.packageWord, .importWord], ∀ rest, Mark.next (ms ++ rest) ≠ .keyword w) ∧
      Reads (nextClass .standard) ms Anything
        fun r => ∃ a, r = some a ∧ ∀ c ∈ a, c.marks ⊆ ms := by
  obtain semicolon | declared := (covers_either_iff ..).mp covered
  · rw [(covers_punct_iff ..).mp semicolon]
    refine ⟨fun _ _ _ => nofun, nextClass_reads_semicolon.imp ?_⟩
    rintro _ rfl
    exact ⟨none, rfl, nofun⟩
  · obtain ⟨modifiers, name, parts, rfl, each⟩ := Class.exists_of_covers declared
    constructor
    · intro w other rest
      rw [List.append_assoc]
      refine modified_next_ne rfl ?_
      rintro ⟨⟩
      cases other with
      | tail _ other => cases other with
        | tail _ other => cases other
    · refine (nextClass_reads_class (typeDeclaration_reads fun depth start enough =>
        classOf_accepts each ?_ start modifiers name)).imp ?_
      · simp only [List.length_append, List.length_cons] at enough
        omega
      · rintro _ ⟨c, own, rfl⟩
        exact ⟨some c, rfl, by rintro _ ⟨⟩; exact own⟩

theorem exists_of_covers_import {ms : List Mark} (h : Nonterminal.importClause.Covers ms) :
    ∃ (first : String) (others : List String) (star : List Mark),
      ms = .word .importWord :: (Mark.dotted (first :: others) ++ (star ++ [.punct .semicolon])) ∧
      (star = [.punct .dot, .punct .star] ∨ star = []) := by
  obtain ⟨_, _, rfl, front, semicolon⟩ := (covers_seq_iff ..).mp h
  obtain ⟨_, star, rfl, front, all⟩ := (covers_seq_iff ..).mp front
  obtain ⟨_, _, rfl, word, path⟩ := (covers_seq_iff ..).mp front
  obtain ⟨first, others, rfl⟩ := exists_of_covers_qualified path
  rw [(covers_word_iff ..).mp word, (covers_punct_iff ..).mp semicolon]
  refine ⟨first, others, star, by simp, ?_⟩
  obtain present | absent := (covers_optional_iff ..).mp all
  · obtain ⟨_, _, rfl, dot, own⟩ := (covers_seq_iff ..).mp present
    rw [(covers_punct_iff ..).mp dot, (covers_punct_iff ..).mp own]
    exact .inl rfl
  · exact .inr absent

theorem nextImport_accepts {ms : List Mark} (covered : Nonterminal.importClause.Covers ms) :
    (∀ rest, Mark.next (ms ++ rest) = .keyword .importWord) ∧
      Reads nextImport ms Anything fun r => ∃ i, r = some i ∧ True := by
  obtain ⟨first, others, star, rfl, all⟩ := exists_of_covers_import covered
  refine ⟨fun _ => rfl, ?_⟩
  have found (name : String) (r : Option Import) (same : r.map Import.name = some name) :
      ∃ i, r = some i ∧ True := by
    obtain ⟨i, rfl, _⟩ := Option.map_eq_some_iff.mp same
    exact ⟨i, rfl, trivial⟩
  obtain rfl | rfl := all
  · exact (nextImport_reads first others (wildcard_reads_star.anywhere _) fun _ => nofun).imp
      (found _)
  · exact (nextImport_reads first others wildcard_reads_nothing fun _ => nofun).imp (found _)

theorem packageName_accepts {ms : List Mark}
    (covered : Nonterminal.packageClause.optional.Covers ms) :
    Reads packageName ms (fun rest => Mark.next rest ≠ .keyword .packageWord) fun _ => True := by
  obtain present | rfl := (covers_optional_iff ..).mp covered
  · obtain ⟨_, _, rfl, front, semicolon⟩ := (covers_seq_iff ..).mp present
    obtain ⟨_, _, rfl, word, path⟩ := (covers_seq_iff ..).mp front
    obtain ⟨first, others, rfl⟩ := exists_of_covers_qualified path
    rw [(covers_word_iff ..).mp word, (covers_punct_iff ..).mp semicolon, List.append_assoc]
    exact ((packageName_reads first others).anywhere _).imp fun _ _ => trivial
  · exact packageName_reads_nothing.imp fun _ _ => trivial

/-- What is derivable as a unit is read as one whose classes are written with some of its marks. -/
theorem compilationUnit_accepts {ms : List Mark} (covered : (symbol .unit).Covers ms) :
    Reads (compilationUnit .standard) ms (Before .eof)
      fun u => ∀ c ∈ u.classes, c.marks ⊆ ms := by
  obtain ⟨_, _, rfl, front, declared⟩ := (covers_seq_iff ..).mp ((covers_symbol_iff ..).mp covered)
  obtain ⟨package, _, rfl, packaged, imported⟩ := (covers_seq_iff ..).mp front
  obtain ⟨imports, rfl, eachImport⟩ := (covers_many_iff ..).mp imported
  obtain ⟨classes, rfl, eachClass⟩ := (covers_many_iff ..).mp declared
  have readImports : Reads (many nextImport) imports.flatten
      (fun rest => Mark.next rest ≠ .keyword .importWord) fun is => ∀ i ∈ is, True :=
    many_accepts nextImport_stops (fun part member => (eachImport part member).ne_nil rfl)
      (fun _ _ _ => trivial) (fun _ _ => trivial)
      fun part member => (nextImport_accepts (eachImport part member)).2
  have readClasses : Reads (many (nextClass .standard)) classes.flatten (Before .eof)
      fun as => ∀ a ∈ as, ∀ c ∈ a, c.marks ⊆ classes.flatten := by
    refine many_accepts nextClass_stops (fun part member => (eachClass part member).ne_nil rfl)
      (fun _ _ _ => trivial) (fun _ _ => trivial) fun part member => ?_
    refine (nextClass_accepts (eachClass part member)).2.imp ?_
    rintro _ ⟨a, rfl, own⟩
    exact ⟨a, rfl, fun c is =>
      List.Subset.trans (own c is) (List.sublist_flatten_of_mem member).subset⟩
  have undeclared (w : Keyword) (other : w ∈ [Keyword.packageWord, .importWord]) (rest : List Mark)
      (after : Before .eof rest) : Mark.next (classes.flatten ++ rest) ≠ .keyword w := by
    rw [← List.flatMap_id]
    refine Mark.next_flatMap_ne (fun part member more => ?_) ?_
    · exact (nextClass_accepts (eachClass part member)).1 w other more
    · rw [show Mark.next rest = _ from after]
      exact nofun
  rw [List.append_assoc]
  refine (compilationUnit_reads (packageName_accepts packaged) readImports readClasses ?_
    (undeclared _ (by decide))).imp ?_
  · intro rest after
    rw [← List.flatMap_id (L := imports)]
    refine Mark.next_flatMap_ne (fun part member more => ?_) ?_
    · rw [id, (nextImport_accepts (eachImport part member)).1]
      exact nofun
    · exact undeclared _ (by decide) rest after
  · rintro u ⟨_, _, cs, made, declared⟩ c member
    rw [declared] at member
    obtain ⟨a, own, is⟩ := List.mem_filterMap.mp member
    have within := made a own c is
    exact List.Subset.trans within fun m here => by simp [here]

end Parser

/-- The tokens that a parser comes to see. -/
def Token.beforeEnd (tokens : List Token) : List Token :=
  tokens.takeWhile fun t => decide (t.kind ≠ .eof)

/-- The text of a number. -/
def Token.numeral? (t : Token) : Option String :=
  if t.kind = .number then some t.value else none

theorem Token.mark_counts_iff (t : Token) :
    t.mark.Counts ↔ (t.kind = .number → (Number.value? t.value).isSome = true) := by
  unfold mark
  split <;> rename_i h <;> simp [Mark.Counts, h]

theorem Token.mem_numerals (tokens : List Token) (text : String) :
    text ∈ tokens.filterMap numeral? ↔ ∃ t ∈ tokens, t.kind = .number ∧ t.value = text := by
  simp [numeral?]

/-- Marks up to an ending can be told apart from what comes from the ending on. -/
theorem Mark.takeWhile_append {ms rest : List Mark} (inside : ∀ m ∈ ms, m.kind ≠ .eof)
    (after : next rest = .eof) : (ms ++ rest).takeWhile (fun m => decide (m.kind ≠ .eof)) = ms := by
  have stop : rest.takeWhile (fun m => decide (m.kind ≠ .eof)) = [] := by
    cases rest with
    | nil => rfl
    | cons m rest => rw [List.takeWhile_cons_of_neg (by simpa using after)]
  rw [List.takeWhile_append_of_pos (by simpa using inside), stop, List.append_nil]

theorem Token.exists_beforeEnd (tokens : List Token) :
    ∃ rest, tokens.map mark = (beforeEnd tokens).map mark ++ rest ∧ Mark.next rest = .eof := by
  induction tokens with
  | nil => exact ⟨[], rfl, rfl⟩
  | cons t tokens ih =>
    by_cases ending : t.kind = .eof
    · refine ⟨(t :: tokens).map mark, ?_, by rw [List.map_cons, Mark.next_cons, mark_kind, ending]⟩
      rw [beforeEnd, List.takeWhile_cons_of_neg (by simpa using ending)]
      rfl
    · obtain ⟨rest, whole, after⟩ := ih
      refine ⟨rest, ?_, after⟩
      rw [beforeEnd, List.takeWhile_cons_of_pos (by simpa using ending), List.map_cons, whole]
      rfl

theorem Token.beforeEnd_concat {last : Token} (ending : last.kind = .eof) (tokens : List Token) :
    beforeEnd (tokens ++ [last]) = beforeEnd tokens := by
  induction tokens with
  | nil => rw [List.nil_append, beforeEnd, List.takeWhile_cons_of_neg (by simpa using ending)]; rfl
  | cons t tokens ih =>
    unfold beforeEnd at ih ⊢
    rw [List.cons_append, List.takeWhile_cons, List.takeWhile_cons, ih]

/-- The stream has an ending behind the tokens that count, in the list or else its own. -/
theorem Cursor.marks_ofTokens (tokens : List Token) (file : String) :
    ∃ rest, (ofTokens tokens file).marks = (Token.beforeEnd tokens).map Token.mark ++ rest ∧
      Mark.next rest = .eof := by
  have same : Token.beforeEnd (ofTokens tokens file).ahead = Token.beforeEnd tokens := by
    unfold ofTokens
    cases final : tokens.getLast? with
    | none => rw [List.getLast?_eq_none_iff.mp final]
    | some last =>
      dsimp only
      split
      · rename_i closed
        obtain ⟨front, rfl⟩ := List.getLast?_eq_some_iff.mp final
        rw [List.dropLast_concat, Token.beforeEnd_concat closed]
      · rfl
  rw [← same]
  exact Token.exists_beforeEnd _

/-- A unit is accepted exactly if the tokens that count are derived from its symbol. -/
theorem CompilationUnit.exists_ofTokens_iff (tokens : List Token) (file : String) :
    (∃ u, CompilationUnit.ofTokens tokens file = .ok u) ↔
      (symbol .unit).Covers ((Token.beforeEnd tokens).map Token.mark) := by
  obtain ⟨rest, here, after⟩ := Cursor.marks_ofTokens tokens file
  unfold ofTokens
  constructor
  · intro accepted
    cases ran : (Parser.compilationUnit .standard).run (.ofTokens tokens file) with
    | error e c => simp [ran] at accepted
    | ok u c =>
      obtain ⟨⟨ms, whole, covered⟩, ending⟩ := Parser.compilationUnit_between _ ran
      -- no ending is derived, so the part taken is the part before the first
      have inside : ∀ m ∈ ms, m.kind ≠ .eof := by
        intro m member ended
        obtain plain | star := covered.1.plain_or_star _ (List.mem_map_of_mem member)
        · rw [ended] at plain; cases plain
        · rw [ended] at star; cases star
      have counted : ∀ m ∈ (Token.beforeEnd tokens).map Token.mark, m.kind ≠ .eof := by
        intro m member
        obtain ⟨t, own, rfl⟩ := List.mem_map.mp member
        rw [Token.mark_kind]
        simpa using List.all_eq_true.mp List.all_takeWhile t own
      rw [Cursor.kind_eq] at ending
      have taken :=
        congrArg (List.takeWhile fun m => decide (m.kind ≠ .eof)) (whole.symm.trans here)
      rw [Mark.takeWhile_append inside ending, Mark.takeWhile_append counted after] at taken
      rwa [← taken]
  · intro covered
    obtain ⟨u, c, ran, _, _⟩ := Parser.compilationUnit_accepts covered _ rest here after
    exact ⟨u, by rw [ran]⟩

/-- What is written of the classes of a unit is among the tokens that count. -/
theorem CompilationUnit.marks_of_ofTokens {tokens : List Token} {file : String}
    {u : CompilationUnit} (parsed : CompilationUnit.ofTokens tokens file = .ok u) :
    ∀ c ∈ u.classes, c.marks ⊆ (Token.beforeEnd tokens).map Token.mark := by
  have covered := (exists_ofTokens_iff tokens file).mp ⟨u, parsed⟩
  obtain ⟨rest, here, after⟩ := Cursor.marks_ofTokens tokens file
  obtain ⟨read, c, ran, _, within⟩ := Parser.compilationUnit_accepts covered _ rest here after
  unfold ofTokens at parsed
  rw [ran] at parsed
  cases parsed
  exact within

theorem Token.covers_marks_iff (p : Phrase) (tokens : List Token) :
    p.Covers (tokens.map mark) ↔
      (∀ t ∈ tokens, t.kind = .number → (Number.value? t.value).isSome = true) ∧
        Derives p (tokens.map (·.kind)) := by
  have kinds : (tokens.map mark).map Mark.kind = tokens.map (·.kind) := by
    simp [mark_kind]
  rw [Covers, kinds, and_comm, List.forall_mem_map]
  simp only [mark_counts_iff]

/-- Parsing accepts exactly the grammar. Of the tokens before the first ending only the kinds
matter, and the texts of numbers. No kinds occur but the plain ones and the star of an import. -/
theorem parsing_exact (tokens : List Token) (file : String) :
    let counted := Token.beforeEnd tokens
    ((∃ u, CompilationUnit.ofTokens tokens file = .ok u) ↔
      (∀ t ∈ counted, t.kind = .number → (Number.value? t.value).isSome = true) ∧
        Derives (.symbol .unit) (counted.map (·.kind))) ∧
    (∀ (others : List Token) (otherFile : String),
      (Token.beforeEnd others).map (·.kind) = counted.map (·.kind) →
      (Token.beforeEnd others).filterMap Token.numeral? = counted.filterMap Token.numeral? →
      ((∃ u, CompilationUnit.ofTokens others otherFile = .ok u) ↔
        ∃ u, CompilationUnit.ofTokens tokens file = .ok u)) ∧
    ((∃ u, CompilationUnit.ofTokens tokens file = .ok u) →
      (∀ t ∈ counted, t.kind.isPlain = true ∨ t.kind = .punct .star) ∧
        StarsEndImports (counted.map (·.kind))) := by
  have accepted_iff (tokens : List Token) (file : String) :=
    (CompilationUnit.exists_ofTokens_iff tokens file).trans (Token.covers_marks_iff _ _)
  refine ⟨accepted_iff tokens file, ?_, ?_⟩
  · intro others otherFile kinds numerals
    have numbers (ts : List Token) :
        (∀ t ∈ ts, t.kind = .number → (Number.value? t.value).isSome = true) ↔
          ∀ text ∈ ts.filterMap Token.numeral?, (Number.value? text).isSome = true := by
      simp only [Token.mem_numerals]
      constructor
      · rintro each _ ⟨t, member, number, rfl⟩
        exact each t member number
      · intro each t member number
        exact each _ ⟨t, member, number, rfl⟩
    rw [accepted_iff, accepted_iff, kinds, numbers, numbers, numerals]
  · intro accepted
    obtain ⟨_, derived⟩ := (accepted_iff tokens file).mp accepted
    refine ⟨fun t member => ?_, .of_unit derived⟩
    exact derived.plain_or_star _ (List.mem_map_of_mem member)

/-- The tokens of `import a.*; ; class C { int x = 1; void m(C p,); }`, and an ending with a stray
word behind it. -/
def Token.sample : List Token :=
  let token (kind : Kind) (value : String) : Token := ⟨kind, value, .unknown⟩
  let punct (p : Punct) := token (.punct p) p.spelling
  [token (.keyword .importWord) "import", token .identifier "a", punct .dot, punct .star,
    punct .semicolon, punct .semicolon, token (.keyword .classWord) "class", token .identifier "C",
    punct .openCurly, token (.primitive .int) "int", token .identifier "x", punct .assign,
    token .number "1", punct .semicolon, token (.primitive .void) "void", token .identifier "m",
    punct .openParen, token .identifier "C", token .identifier "p", punct .comma, punct .closeParen,
    punct .semicolon, punct .closeCurly, .ending .unknown, token (.keyword .returnWord) "return"]

theorem parsing_exact_sample :
    (∃ u, CompilationUnit.ofTokens Token.sample "" = .ok u) ∧
      Derives (.symbol .unit) ((Token.beforeEnd Token.sample).map (·.kind)) ∧
      StarsEndImports ((Token.beforeEnd Token.sample).map (·.kind)) := by
  have accepted : ∃ u, CompilationUnit.ofTokens Token.sample "" = .ok u := ⟨_, rfl⟩
  obtain ⟨exactly, _, occurring⟩ := parsing_exact Token.sample ""
  exact ⟨accepted, (exactly.mp accepted).2, (occurring accepted).2⟩

end Javelet
