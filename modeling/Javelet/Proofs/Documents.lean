import Javelet.Json
import Javelet.Proofs.Legibility

namespace Javelet.Json

theorem induct {P : Json → Prop} (bool : ∀ value, P (.bool value)) (nat : ∀ value, P (.nat value))
    (string : ∀ value, P (.string value))
    (array : ∀ items, (∀ item ∈ items, P item) → P (.array items))
    (object : ∀ fields, (∀ field ∈ fields, P field.2) → P (.object fields)) (json : Json) :
    P json :=
  @Json.rec P (fun items => ∀ item ∈ items, P item) (fun fields => ∀ field ∈ fields, P field.2)
    (fun field => P field.2) bool nat string array object (List.forall_mem_nil _)
    (fun _ _ first rest => List.forall_mem_cons.mpr ⟨first, rest⟩) (List.forall_mem_nil _)
    (fun _ _ first rest => List.forall_mem_cons.mpr ⟨first, rest⟩) (fun _ _ value => value) json

theorem renderItems_eq_map (items : List Json) : renderItems items = items.map render := by
  induction items with
  | nil => rfl
  | cons item rest ih => rw [renderItems, ih, List.map_cons]

def fieldText (field : String × Json) : List Char :=
  (quoted field.1).toList ++ ':' :: field.2.render.toList

theorem renderFields_eq_map (fields : List (String × Json)) :
    (renderFields fields).map String.toList = fields.map fieldText := by
  induction fields with
  | nil => rfl
  | cons field rest ih => simp [renderFields, ih, fieldText]

theorem toList_render_array (items : List Json) : (array items).render.toList =
    '[' :: ([','].intercalate (items.map fun item => item.render.toList) ++ [']']) := by
  simp [render, renderItems_eq_map, Function.comp_def]

theorem toList_render_object (fields : List (String × Json)) : (object fields).render.toList =
    '\x7b' :: ([','].intercalate (fields.map fieldText) ++ ['\x7d']) := by
  simp [render, renderFields_eq_map]

theorem toList_quoted (text : String) :
    (quoted text).toList = '"' :: (text.toList.flatMap escape ++ ['"']) := by
  simp [quoted]

theorem break_not_mem_escape (c : Char) : '\n' ∉ escape c := by
  unfold escape
  split_ifs with _ _ _ _ broken
  case neg => simpa using Ne.symm broken
  all_goals simp

theorem oneLine_quoted (text : String) : OneLine (quoted text) := by
  simp [OneLine, toList_quoted, break_not_mem_escape]

theorem not_mem_intercalate {c : Char} (other : c ≠ ',') {parts : List (List Char)}
    (each : ∀ part ∈ parts, c ∉ part) : c ∉ [','].intercalate parts := by
  induction parts with
  | nil => simp
  | cons first rest ih =>
    obtain ⟨own, later⟩ := List.forall_mem_cons.mp each
    cases rest with
    | nil => simpa using own
    | cons second rest =>
      rw [List.intercalate_cons_cons, List.mem_append, List.mem_append, List.mem_singleton]
      rintro ((here | same) | there)
      · exact own here
      · exact other same
      · exact ih later there

theorem oneLine_render (json : Json) : OneLine json.render := by
  induction json using induct with
  | bool value => cases value <;> decide
  | nat value => exact OneLine.repr value
  | string value => exact oneLine_quoted value
  | array items each =>
    have inside := not_mem_intercalate (by decide) (List.forall_mem_map.mpr each)
    simpa [OneLine, toList_render_array] using inside
  | object fields each =>
    have plain : ∀ field ∈ fields, '\n' ∉ fieldText field := by
      intro field member
      have name : '\n' ∉ (quoted field.1).toList := oneLine_quoted field.1
      have value : '\n' ∉ field.2.render.toList := each field member
      simp [fieldText, name, value]
    have inside := not_mem_intercalate (by decide) (List.forall_mem_map.mpr plain)
    simpa [OneLine, toList_render_object] using inside

/-- The place of a digit in the row of all sixteen. -/
def hexDigit (c : Char) : Nat := "0123456789abcdef".toList.idxOf c

theorem hexDigit_digitChar : ∀ n < 16, hexDigit (Nat.digitChar n) = n := by decide

/-- The character that is written at the front of a string's text, and what is behind it. -/
def unescape? : List Char → Option (Char × List Char)
  | [] => none
  | '"' :: _ => none
  | '\\' :: 'b' :: rest => some ('\x08', rest)
  | '\\' :: 't' :: rest => some ('\t', rest)
  | '\\' :: 'n' :: rest => some ('\n', rest)
  | '\\' :: 'f' :: rest => some ('\x0c', rest)
  | '\\' :: 'r' :: rest => some ('\r', rest)
  | '\\' :: 'u' :: '0' :: '0' :: high :: low :: rest =>
    some (Char.ofNat (16 * hexDigit high + hexDigit low), rest)
  | '\\' :: c :: rest => some (c, rest)
  | c :: rest => some (c, rest)

theorem unescape?_escape (c : Char) (rest : List Char) :
    unescape? (escape c ++ rest) = some (c, rest) := by
  unfold escape
  split_ifs with quote backslash _ _ _ _ _ low high
  case pos | pos | pos | pos | pos | pos | pos => subst_vars; rfl
  · have value : 16 * hexDigit '0' + hexDigit (Nat.digitChar c.toNat) = c.toNat := by
      rw [hexDigit_digitChar _ low]
      simp [hexDigit]
    change some (Char.ofNat (16 * hexDigit '0' + hexDigit (Nat.digitChar c.toNat)), rest) = _
    rw [value, Char.ofNat_toNat]
  · have value : 16 * hexDigit '1' + hexDigit (Nat.digitChar (c.toNat - 16)) = c.toNat := by
      rw [hexDigit_digitChar _ (by omega), show hexDigit '1' = 1 by decide]
      omega
    change some (Char.ofNat (16 * hexDigit '1' + hexDigit (Nat.digitChar (c.toNat - 16))), rest) = _
    rw [value, Char.ofNat_toNat]
  · rw [List.singleton_append]
    unfold unescape?
    split <;> simp_all

/-- Up to the quote that ends it, a string's text can be read in one way. -/
theorem escaped_cancel {cs cs' back back' : List Char}
    (same : cs.flatMap escape ++ '"' :: back = cs'.flatMap escape ++ '"' :: back') :
    cs = cs' ∧ back = back' := by
  induction cs generalizing cs' with
  | nil =>
    cases cs' with
    | nil => exact ⟨rfl, (List.cons.inj same).2⟩
    | cons c' rest' =>
      have first := congrArg unescape? same
      rw [List.flatMap_cons, List.append_assoc, unescape?_escape] at first
      cases first
  | cons c rest ih =>
    have first := congrArg unescape? same
    rw [List.flatMap_cons, List.append_assoc, unescape?_escape] at first
    cases cs' with
    | nil => cases first
    | cons c' rest' =>
      rw [List.flatMap_cons, List.append_assoc, unescape?_escape, Option.some.injEq,
        Prod.mk.injEq] at first
      obtain ⟨rfl, later⟩ := first
      obtain ⟨rfl, behind⟩ := ih later
      exact ⟨rfl, behind⟩

theorem quoted_cancel {text text' : String} {back back' : List Char}
    (same : (quoted text).toList ++ back = (quoted text').toList ++ back') :
    text = text' ∧ back = back' := by
  rw [toList_quoted, toList_quoted] at same
  simp only [List.cons_append, List.append_assoc, List.nil_append, List.cons.injEq,
    true_and] at same
  obtain ⟨texts, behind⟩ := escaped_cancel same
  exact ⟨String.toList_inj.mp texts, behind⟩

/-- Nothing that a number could go on with. -/
def Ends (back : List Char) : Prop := ∀ c ∈ back.head?, c.isDigit = false

theorem ends_nil : Ends [] := by
  intro c first
  cases first

theorem ends_cons {c : Char} (other : c.isDigit = false) (rest : List Char) : Ends (c :: rest) := by
  intro d first
  cases first
  exact other

theorem digits_of_nat (value : Nat) : ∀ c ∈ (nat value).render.toList, c.isDigit = true := by
  intro c member
  have digit : c ∈ value.repr.toList := member
  rw [Nat.toList_repr] at digit
  exact Nat.isDigit_of_mem_toDigits (by decide) (by decide) digit

theorem nat_cancel {value value' : Nat} {back back' : List Char} (ends : Ends back)
    (ends' : Ends back')
    (same : (nat value).render.toList ++ back = (nat value').render.toList ++ back') :
    value = value' ∧ back = back' := by
  have none {back : List Char} (ends : Ends back) : back.takeWhile Char.isDigit = [] := by
    cases back with
    | nil => rfl
    | cons c rest => simp [ends c rfl]
  have digits := congrArg (List.takeWhile Char.isDigit) same
  rw [List.takeWhile_append_of_pos (digits_of_nat value), none ends, List.append_nil,
    List.takeWhile_append_of_pos (digits_of_nat value'), none ends', List.append_nil] at digits
  rw [digits] at same
  exact ⟨Nat.repr_inj.mp (String.toList_inj.mp digits), List.append_cancel_left same⟩

/-- Documents of different sorts start with different characters. -/
def sort : Json → Nat
  | bool true => 0
  | bool false => 1
  | nat _ => 2
  | string _ => 3
  | array _ => 4
  | object _ => 5

/-- The sort of the documents that start with the character, if there are any. -/
def sortOf? (c : Char) : Option Nat :=
  if c = 't' then some 0
  else if c = 'f' then some 1
  else if c.isDigit then some 2
  else if c = '"' then some 3
  else if c = '[' then some 4
  else if c = '\x7b' then some 5
  else none

theorem exists_start (json : Json) :
    ∃ c rest, json.render.toList = c :: rest ∧ sortOf? c = some json.sort := by
  cases json with
  | bool value => cases value <;> exact ⟨_, _, rfl, rfl⟩
  | nat value =>
    have present : (nat value).render.toList ≠ [] := by
      change value.repr.toList ≠ []
      rw [Nat.toList_repr]
      exact Nat.toDigits_ne_nil
    obtain ⟨c, rest, text⟩ := List.exists_cons_of_ne_nil present
    have digit := digits_of_nat value c (by simp [text])
    have truth : c ≠ 't' := by rintro rfl; cases digit
    have falsity : c ≠ 'f' := by rintro rfl; cases digit
    exact ⟨c, rest, text, by simp [sortOf?, sort, truth, falsity, digit]⟩
  | string value => exact ⟨_, _, toList_quoted value, rfl⟩
  | array items => exact ⟨_, _, toList_render_array items, rfl⟩
  | object fields => exact ⟨_, _, toList_render_object fields, rfl⟩

theorem sort_eq {json other : Json} {back back' : List Char}
    (same : json.render.toList ++ back = other.render.toList ++ back') :
    json.sort = other.sort := by
  obtain ⟨c, rest, text, sorted⟩ := exists_start json
  obtain ⟨c', rest', text', sorted'⟩ := exists_start other
  rw [text, text'] at same
  rw [(List.cons.inj same).1, sorted'] at sorted
  exact (Option.some.inj sorted).symm

section Listed

variable {α : Type} (text : α → List Char) (close : Char)

/-- What is behind an item of a list: a comma and the other items, or the end of the list. -/
def behindItem (back : List Char) : List α → List Char
  | [] => close :: back
  | x :: xs => ',' :: ([','].intercalate ((x :: xs).map text) ++ close :: back)

theorem intercalate_cons_behind (x : α) (xs : List α) (back : List Char) :
    [','].intercalate ((x :: xs).map text) ++ close :: back =
      text x ++ behindItem text close back xs := by
  cases xs with
  | nil => simp [behindItem]
  | cons y ys => simp [behindItem, List.intercalate_cons_cons]

variable {text close}

theorem ends_behindItem (plain : close.isDigit = false) (back : List Char) (xs : List α) :
    Ends (behindItem text close back xs) := by
  cases xs with
  | nil => exact ends_cons plain back
  | cons x xs => exact ends_cons (by decide) _

/-- A list up to its closing bracket can be told from a text that it stands in front of, if each
item can. -/
theorem listed_cancel (other : close ≠ ',') (plain : close.isDigit = false)
    (starts : ∀ x, ∃ c rest, text x = c :: rest ∧ c ≠ close)
    {xs : List α} (each : ∀ x ∈ xs, ∀ y back back', Ends back → Ends back' →
      text x ++ back = text y ++ back' → x = y ∧ back = back')
    {ys : List α} {back back' : List Char}
    (same : [','].intercalate (xs.map text) ++ close :: back =
      [','].intercalate (ys.map text) ++ close :: back') : xs = ys ∧ back = back' := by
  -- where one list has ended, the other cannot start an item
  have ended (y : α) (ys : List α) (back back' : List Char) : close :: back ≠
      [','].intercalate ((y :: ys).map text) ++ close :: back' := by
    obtain ⟨c, rest, first, differs⟩ := starts y
    rw [intercalate_cons_behind, first]
    exact fun same => differs (List.cons.inj same).1.symm
  induction xs generalizing ys with
  | nil =>
    cases ys with
    | nil => exact ⟨rfl, (List.cons.inj same).2⟩
    | cons y ys => exact absurd same (ended y ys back back')
  | cons x xs ih =>
    cases ys with
    | nil => exact absurd same.symm (ended x xs back' back)
    | cons y ys =>
      obtain ⟨own, later⟩ := List.forall_mem_cons.mp each
      rw [intercalate_cons_behind, intercalate_cons_behind] at same
      obtain ⟨rfl, behind⟩ := own y _ _ (ends_behindItem plain back xs)
        (ends_behindItem plain back' ys) same
      cases xs with
      | nil =>
        cases ys with
        | nil => exact ⟨rfl, (List.cons.inj behind).2⟩
        | cons y ys => exact absurd (List.cons.inj behind).1 other
      | cons x' xs =>
        cases ys with
        | nil => exact absurd (List.cons.inj behind).1.symm other
        | cons y ys =>
          obtain ⟨rest, backs⟩ := ih later (List.cons.inj behind).2
          exact ⟨congrArg _ rest, backs⟩

end Listed

theorem field_cancel {field field' : String × Json} {back back' : List Char}
    (value : ∀ other back back', Ends back → Ends back' →
      field.2.render.toList ++ back = other.render.toList ++ back' →
      field.2 = other ∧ back = back')
    (ends : Ends back) (ends' : Ends back')
    (same : fieldText field ++ back = fieldText field' ++ back') :
    field = field' ∧ back = back' := by
  rw [fieldText, fieldText, List.append_assoc, List.append_assoc] at same
  obtain ⟨names, behind⟩ := quoted_cancel same
  obtain ⟨values, backs⟩ := value _ _ _ ends ends' (List.cons.inj behind).2
  exact ⟨Prod.ext names values, backs⟩

/-- A document can be told from a text that it stands in front of, and so can what is behind it. -/
theorem render_cancel (json : Json) : ∀ (other : Json) (back back' : List Char), Ends back →
    Ends back' → json.render.toList ++ back = other.render.toList ++ back' →
    json = other ∧ back = back' := by
  have opens {close : Char} (none : sortOf? close = none) (json : Json) :
      ∃ c rest, json.render.toList = c :: rest ∧ c ≠ close := by
    obtain ⟨c, rest, text, sorted⟩ := exists_start json
    refine ⟨c, rest, text, ?_⟩
    rintro rfl
    rw [none] at sorted
    cases sorted
  induction json using induct with
  | bool value =>
    intro other back back' ends ends' same
    have sorts := sort_eq same
    cases other with
    | bool value' =>
      obtain rfl : value = value' := by
        cases value <;> cases value' <;> simp [sort] at sorts ⊢
      exact ⟨rfl, List.append_cancel_left same⟩
    | nat | string | array | object => cases value <;> simp [sort] at sorts
  | nat value =>
    intro other back back' ends ends' same
    have sorts := sort_eq same
    cases other with
    | nat value' =>
      obtain ⟨rfl, backs⟩ := nat_cancel ends ends' same
      exact ⟨rfl, backs⟩
    | bool value' => cases value' <;> simp [sort] at sorts
    | string | array | object => simp [sort] at sorts
  | string value =>
    intro other back back' ends ends' same
    have sorts := sort_eq same
    cases other with
    | string value' =>
      obtain ⟨rfl, backs⟩ := quoted_cancel same
      exact ⟨rfl, backs⟩
    | bool value' => cases value' <;> simp [sort] at sorts
    | nat | array | object => simp [sort] at sorts
  | array items each =>
    intro other back back' ends ends' same
    have sorts := sort_eq same
    cases other with
    | array items' =>
      rw [toList_render_array, toList_render_array, List.cons_append, List.cons_append,
        List.append_assoc, List.append_assoc] at same
      obtain ⟨rfl, backs⟩ := listed_cancel (by decide) (by decide) (opens (by decide)) each
        (List.cons.inj same).2
      exact ⟨rfl, backs⟩
    | bool value' => cases value' <;> simp [sort] at sorts
    | nat | string | object => simp [sort] at sorts
  | object fields each =>
    intro other back back' ends ends' same
    have sorts := sort_eq same
    cases other with
    | object fields' =>
      rw [toList_render_object, toList_render_object, List.cons_append, List.cons_append,
        List.append_assoc, List.append_assoc] at same
      obtain ⟨rfl, backs⟩ := listed_cancel (by decide) (by decide)
        (fun field => ⟨'"', _, by rw [fieldText, toList_quoted, List.cons_append], by decide⟩)
        (fun field member _ _ _ => field_cancel (each field member)) (List.cons.inj same).2
      exact ⟨rfl, backs⟩
    | bool value' => cases value' <;> simp [sort] at sorts
    | nat | string | array => simp [sort] at sorts

theorem render_injective : Function.Injective render := by
  intro json other same
  exact (render_cancel json other [] [] ends_nil ends_nil (by rw [same])).1

end Javelet.Json
