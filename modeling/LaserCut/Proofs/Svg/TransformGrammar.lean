import LaserCut.Proofs.Outcome
import LaserCut.Proofs.Text.Literals
import LaserCut.Svg.TransformList

/-!
# The grammar of transform lists

Which items a text spells, stated without a reader:

* `TransformItem.name`, `TransformItem.arguments`: an item as a name and numbers, of which there are
  so many as the name allows (`TransformItem.exists_item_iff`);
* `TransformList.SpellsNumbers`: literals with blanks and commas about them;
* `TransformItem.Spells`: a name and its arguments in brackets;
* `TransformList.Spells`: the items of a text.

`TransformList.parse?` reads exactly the items that a trimmed text spells
(`TransformList.parse?_eq_some_iff`).
-/

namespace LaserCut

/-! ## Names and arguments -/

namespace TransformItem

variable {ν : Type}

def name : TransformItem ν → String
  | matrix _ => "matrix"
  | translate .. => "translate"
  | scale .. => "scale"
  | rotate .. => "rotate"
  | skewX _ => "skewX"
  | skewY _ => "skewY"

/-- The arguments in the order in which they are written. -/
def arguments : TransformItem ν → List ν
  | matrix m => [m.a, m.b, m.c, m.d, m.e, m.f]
  | translate x y => x :: y.toList
  | scale x y => x :: y.toList
  | rotate degrees none => [degrees]
  | rotate degrees (some center) => [degrees, center.x, center.y]
  | skewX degrees => [degrees]
  | skewY degrees => [degrees]

theorem ofArguments?_eq_some_iff {name : String} {arguments : List ν} {item : TransformItem ν} :
    ofArguments? name arguments = some item ↔ item.name = name ∧ item.arguments = arguments := by
  constructor
  · intro h
    unfold ofArguments? at h
    split at h <;> cases h <;> exact ⟨rfl, rfl⟩
  · rintro ⟨rfl, rfl⟩
    cases item with
    | matrix m => rfl
    | translate x y => cases y <;> rfl
    | scale x y => cases y <;> rfl
    | rotate degrees center => cases center <;> rfl
    | skewX degrees => rfl
    | skewY degrees => rfl

/-- The names of items, and how many arguments each may have. -/
def signatures : List (String × Nat) :=
  [("matrix", 6), ("translate", 1), ("translate", 2), ("scale", 1), ("scale", 2), ("rotate", 1),
    ("rotate", 3), ("skewX", 1), ("skewY", 1)]

theorem mem_signatures (item : TransformItem ν) :
    (item.name, item.arguments.length) ∈ signatures := by
  cases item with
  | matrix m => simp [signatures, name, arguments]
  | translate x y => cases y <;> simp [signatures, name, arguments]
  | scale x y => cases y <;> simp [signatures, name, arguments]
  | rotate degrees center => cases center <;> simp [signatures, name, arguments]
  | skewX degrees => simp [signatures, name, arguments]
  | skewY degrees => simp [signatures, name, arguments]

theorem exists_item_iff {name : String} {arguments : List ν} :
    (∃ item : TransformItem ν, item.name = name ∧ item.arguments = arguments) ↔
      (name, arguments.length) ∈ signatures := by
  constructor
  · rintro ⟨item, rfl, rfl⟩
    exact item.mem_signatures
  · intro h
    simp only [signatures, List.mem_cons, Prod.mk.injEq, List.not_mem_nil, or_false] at h
    rcases h with ⟨rfl, six⟩ | ⟨rfl, one⟩ | ⟨rfl, two⟩ | ⟨rfl, one⟩ | ⟨rfl, two⟩ | ⟨rfl, one⟩ |
      ⟨rfl, three⟩ | ⟨rfl, one⟩ | ⟨rfl, one⟩
    · match arguments, six with
      | [a, b, c, d, e, f], _ => exact ⟨matrix ⟨a, b, c, d, e, f⟩, rfl, rfl⟩
    · match arguments, one with
      | [x], _ => exact ⟨translate x none, rfl, rfl⟩
    · match arguments, two with
      | [x, y], _ => exact ⟨translate x (some y), rfl, rfl⟩
    · match arguments, one with
      | [x], _ => exact ⟨scale x none, rfl, rfl⟩
    · match arguments, two with
      | [x, y], _ => exact ⟨scale x (some y), rfl, rfl⟩
    · match arguments, one with
      | [degrees], _ => exact ⟨rotate degrees none, rfl, rfl⟩
    · match arguments, three with
      | [degrees, x, y], _ => exact ⟨rotate degrees (some ⟨x, y⟩), rfl, rfl⟩
    · match arguments, one with
      | [degrees], _ => exact ⟨skewX degrees, rfl, rfl⟩
    · match arguments, one with
      | [degrees], _ => exact ⟨skewY degrees, rfl, rfl⟩

theorem isAlpha_of_mem_name {item : TransformItem ν} {c : Char} (hc : c ∈ item.name.toList) :
    c.isAlpha = true := by
  have letters : ∀ s ∈ signatures, s.1.toList.all Char.isAlpha = true := by decide
  exact List.all_eq_true.mp (letters _ item.mem_signatures) c hc

theorem name_ne_nil (item : TransformItem ν) : item.name.toList ≠ [] := by
  have some : ∀ s ∈ signatures, s.1.toList ≠ [] := by decide
  exact some _ item.mem_signatures

end TransformItem
/-! ## Numbers -/

namespace TransformList

open PathData (EndsNumber)

/-- A run of blanks and commas. -/
def Gap (cs : List Char) : Prop := ∀ c ∈ cs, Text.isListSeparator c = true

/-- Literals in order, with blanks and commas before, after and between them. -/
inductive SpellsNumbers : List Literal → List Char → Prop
  | nil {gap : List Char} : Gap gap → SpellsNumbers [] gap
  | cons {l : Literal} {ls : List Literal} {gap text rest : List Char} : Gap gap → l.Spells text →
    EndsNumber rest → SpellsNumbers ls rest → SpellsNumbers (l :: ls) (gap ++ (text ++ rest))

theorem fields_append_of_endsNumber {l : Literal} {text rest : List Char} (h : l.Spells text)
    (ends : EndsNumber rest) : Text.fields Text.isListSeparator (text ++ rest) =
      text :: Text.fields Text.isListSeparator rest := by
  have inside : ∀ c ∈ text, Text.isListSeparator c = false := fun _ hc =>
    PathData.isListSeparator_of_isLiteralChar (h.isLiteralChar_of_mem hc)
  cases rest with
  | nil =>
    rw [List.append_nil, Text.fields_of_forall_not inside h.ne_nil]
    rfl
  | cons c rest =>
    rw [Text.fields_append_cons inside h.ne_nil (ends c rfl), Text.fields_cons (ends c rfl)]

theorem numbers?_eq_some_iff {ls : List Literal} {cs : List Char} :
    numbers? cs = some ls ↔ SpellsNumbers ls cs := by
  rw [numbers?, Outcome.mapM_eq_some_iff]
  constructor
  · intro h
    generalize fields : Text.fields Text.isListSeparator cs = texts at h
    induction h generalizing cs with
    | nil => exact .nil (Text.forall_of_fields_eq_nil fields)
    | cons number _ ih =>
      obtain ⟨gap, rest, rfl, separators, ends, others⟩ := Text.exists_of_fields_eq_cons fields
      exact .cons separators (Literal.ofChars?_eq_some_iff.mp number) ends (ih others)
  · intro h
    induction h with
    | @nil gap separators =>
      have none : Text.fields Text.isListSeparator gap = [] := by
        rw [← List.append_nil gap, Text.fields_append separators]
        rfl
      rw [none]
      exact .nil
    | cons separators number ends _ ih =>
      rw [Text.fields_append separators, fields_append_of_endsNumber number ends]
      exact .cons (Literal.ofChars?_eq_some_iff.mpr number) ih

/-- Numbers have no closing bracket among them. -/
theorem SpellsNumbers.not_mem {ls : List Literal} {cs : List Char} (h : SpellsNumbers ls cs) :
    ')' ∉ cs := by
  have gap {cs : List Char} (separators : Gap cs) : ')' ∉ cs := fun mem =>
    absurd (separators _ mem) (by decide)
  induction h with
  | nil separators => exact gap separators
  | cons separators number _ _ ih =>
    simp only [List.mem_append, not_or]
    exact ⟨gap separators, fun mem => absurd (number.isLiteralChar_of_mem mem) (by decide), ih⟩

end TransformList

/-! ## Items -/

/-- An item as it is written: its name, about which there may be blanks, and in brackets its
arguments. -/
inductive TransformItem.Spells (item : TransformItem Literal) : List Char → Prop
  | intro {before after text : List Char} : (∀ c ∈ before, Text.isBlank c = true) →
    (∀ c ∈ after, Text.isBlank c = true) → TransformList.SpellsNumbers item.arguments text →
      Spells item (before ++ (item.name.toList ++ (after ++ '(' :: (text ++ [')']))))

namespace TransformItem

/-- The name of an item with blanks about it has no bracket in it. -/
theorem not_mem_of_blanks {item : TransformItem Literal} {before after : List Char}
    (hb : ∀ c ∈ before, Text.isBlank c = true) (ha : ∀ c ∈ after, Text.isBlank c = true) {c : Char}
    (blank : Text.isBlank c = false) (alpha : c.isAlpha = false) :
    c ∉ before ++ (item.name.toList ++ after) := by
  have notBlank {cs : List Char} (h : ∀ c ∈ cs, Text.isBlank c = true) : c ∉ cs := fun mem =>
    Bool.false_ne_true (blank.symm.trans (h c mem))
  simp only [List.mem_append, not_or]
  exact ⟨notBlank hb, fun mem => Bool.false_ne_true (alpha.symm.trans (isAlpha_of_mem_name mem)),
    notBlank ha⟩

theorem isTrimmed_name (item : TransformItem Literal) : Text.IsTrimmed item.name.toList := by
  have inside {c : Char} (hc : c ∈ item.name.toList) : Text.isBlank c = false :=
    Bool.eq_false_iff.mpr fun blank => Bool.false_ne_true
      ((Text.isListSeparator_of_isAlpha (isAlpha_of_mem_name hc)).symm.trans
        (Text.isListSeparator_of_isBlank blank))
  exact ⟨fun _ first => inside (List.mem_of_mem_head? first),
    fun _ last => inside (List.mem_of_getLast? last)⟩

end TransformItem

namespace TransformList

/-- The items of a text, with blanks and commas between them and behind the last one. -/
inductive Spells : List (TransformItem Literal) → List Char → Prop
  | nil : Spells [] []
  | cons {item : TransformItem Literal} {items : List (TransformItem Literal)}
    {text gap rest : List Char} : item.Spells text → Gap gap → Spells items rest →
      Spells (item :: items) (text ++ (gap ++ rest))

/-- `item?` reads the item that a text begins with. -/
theorem item?_eq_some_iff {item : TransformItem Literal} {cs rest : List Char} :
    item? cs = some (item, rest) ↔ ∃ text, item.Spells text ∧ cs = text ++ rest := by
  constructor
  · intro h
    simp only [item?, Option.bind_eq_bind, Option.bind_eq_some_iff, Prod.exists] at h
    obtain ⟨head, tail, opening, h⟩ := h
    obtain ⟨rfl, -⟩ := Text.of_cutAt_eq_some opening
    split at h
    · cases h
    · simp only [Option.bind_eq_some_iff, Option.pure_def, Option.some.injEq, Prod.mk.injEq,
        Prod.exists] at h
      obtain ⟨text, after, closing, ls, numbers, found, known, rfl, rfl⟩ := h
      obtain ⟨rfl, -⟩ := Text.of_cutAt_eq_some closing
      obtain ⟨named, rfl⟩ := TransformItem.ofArguments?_eq_some_iff.mp known
      obtain ⟨before, blanks, hb, ha, split, -⟩ := Text.exists_trim head
      have name : found.name.toList = Text.trim head := by rw [named, String.toList_ofList]
      refine ⟨_, .intro hb ha (numbers?_eq_some_iff.mp numbers), ?_⟩
      rw [name]
      conv_lhs => rw [split]
      simp only [List.append_assoc, List.cons_append, List.nil_append]
  · rintro ⟨_, ⟨hb, ha, numbers⟩, rfl⟩
    rename_i before after text
    have parts : before ++ (item.name.toList ++ (after ++ '(' :: (text ++ [')']))) ++ rest =
        (before ++ (item.name.toList ++ after)) ++ '(' :: (text ++ ')' :: rest) := by
      simp only [List.append_assoc, List.cons_append, List.nil_append]
    rw [parts, item?, Text.cutAt_append_cons (TransformItem.not_mem_of_blanks hb ha rfl rfl)]
    simp only [Option.bind_eq_bind, Option.bind_some,
      if_neg (TransformItem.not_mem_of_blanks hb ha (c := ')') rfl rfl),
      Text.cutAt_append_cons numbers.not_mem, numbers?_eq_some_iff.mpr numbers,
      Text.trim_append hb item.isTrimmed_name ha, String.ofList_toList,
      TransformItem.ofArguments?_eq_some_iff.mpr ⟨rfl, rfl⟩]
    rfl

/-- Blanks in front of the first item make no difference. -/
theorem Spells.dropWhile {items : List (TransformItem Literal)} {cs : List Char}
    (h : Spells items cs) : Spells items (cs.dropWhile Text.isListSeparator) := by
  cases h with
  | nil => exact .nil
  | cons spelled gap others =>
    obtain ⟨hb, ha, numbers⟩ := spelled
    rename_i item items gap rest before after text
    have separators : ∀ c ∈ before, Text.isListSeparator c = true := fun c hc =>
      Text.isListSeparator_of_isBlank (hb c hc)
    have nothing : ∀ c ∈ [], Text.isBlank c = true := nofun
    have written := TransformItem.Spells.intro nothing ha numbers
    rw [List.append_assoc, List.dropWhile_append_of_pos separators]
    cases name : item.name.toList with
    | nil => exact absurd name item.name_ne_nil
    | cons c letters =>
      have letter := TransformItem.isAlpha_of_mem_name (name ▸ List.mem_cons_self)
      rw [List.cons_append, List.cons_append, List.dropWhile_cons_of_neg
        (by rw [Text.isListSeparator_of_isAlpha letter]; exact Bool.false_ne_true)]
      rw [name] at written
      exact .cons written gap others

theorem spells_nil_iff {cs : List Char} : Spells [] cs ↔ cs = [] :=
  ⟨fun h => by cases h; rfl, fun h => h ▸ .nil⟩

theorem spells_cons_iff {item : TransformItem Literal} {items : List (TransformItem Literal)}
    {cs : List Char} : Spells (item :: items) cs ↔
      ∃ rest, item? cs = some (item, rest) ∧
        Spells items (rest.dropWhile Text.isListSeparator) := by
  constructor
  · intro h
    cases h with
    | @cons _ _ text gap rest spelled separators others =>
      refine ⟨gap ++ rest, item?_eq_some_iff.mpr ⟨text, spelled, rfl⟩, ?_⟩
      rw [List.dropWhile_append_of_pos separators]
      exact others.dropWhile
  · rintro ⟨rest, read, others⟩
    obtain ⟨text, spelled, rfl⟩ := item?_eq_some_iff.mp read
    obtain ⟨gap, separators, split⟩ := Text.exists_separators Text.isListSeparator rest
    rw [split]
    exact .cons spelled separators others

theorem eq_nil_of_spells_nil {items : List (TransformItem Literal)} (h : Spells items []) :
    items = [] := by
  cases items with
  | nil => rfl
  | cons item items =>
    obtain ⟨rest, read, -⟩ := spells_cons_iff.mp h
    cases read

/-- `items?` reads the items of the grammar. -/
theorem items?_eq_some_iff {items : List (TransformItem Literal)} {cs : List Char} :
    items? cs = some items ↔ Spells items cs := by
  fun_induction items? cs generalizing items with
  | case1 =>
    cases items with
    | nil => exact iff_of_true rfl .nil
    | cons item items => exact iff_of_false nofun fun h => nomatch eq_nil_of_spells_nil h
  | case2 c cs none =>
    cases items with
    | nil => exact iff_of_false nofun fun h => nomatch spells_nil_iff.mp h
    | cons item items =>
      refine iff_of_false nofun fun h => ?_
      obtain ⟨rest, read, -⟩ := spells_cons_iff.mp h
      exact absurd (none.symm.trans read) nofun
  | case3 c cs item rest read _ _ ih =>
    rw [Option.map_eq_some_iff]
    cases items with
    | nil =>
      refine iff_of_false ?_ fun h => nomatch spells_nil_iff.mp h
      rintro ⟨_, _, same⟩
      cases same
    | cons first items =>
      simp only [spells_cons_iff, read, Option.some.injEq, Prod.mk.injEq, List.cons.injEq, ih]
      constructor
      · rintro ⟨_, others, rfl, rfl⟩
        exact ⟨rest, ⟨rfl, rfl⟩, others⟩
      · rintro ⟨_, ⟨rfl, rfl⟩, others⟩
        exact ⟨items, others, rfl, rfl⟩

/-- `parse?` reads exactly the items that a trimmed text spells. -/
theorem parse?_eq_some_iff {items : List (TransformItem Literal)} {s : String} :
    parse? s = some items ↔ Spells items (Text.trim s.toList) :=
  items?_eq_some_iff

/-! ## One list after another -/

theorem Spells.append {items others : List (TransformItem Literal)} {cs ds gap : List Char}
    (h : Spells items cs) (ne : items ≠ []) (separators : Gap gap) (hd : Spells others ds) :
    Spells (items ++ others) (cs ++ (gap ++ ds)) := by
  induction h with
  | nil => exact absurd rfl ne
  | @cons item items text between rest spelled separates h ih =>
    rw [List.append_assoc, List.append_assoc]
    cases items with
    | nil =>
      rw [spells_nil_iff.mp h, List.nil_append, ← List.append_assoc between]
      exact .cons spelled (fun c hc => (List.mem_append.mp hc).elim (separates c) (separators c)) hd
    | cons next items => exact .cons spelled separates (ih (List.cons_ne_nil _ _))

/-- Two lists with a blank between them are one list. -/
theorem parse?_append {s t : String} {items others : List (TransformItem Literal)}
    (hs : parse? s = some items) (ht : parse? t = some others) :
    parse? (s ++ " " ++ t) = some (items ++ others) := by
  have first := parse?_eq_some_iff.mp hs
  have second := parse?_eq_some_iff.mp ht
  have whole : (s ++ " " ++ t).toList = s.toList ++ ([' '] ++ t.toList) := by
    rw [String.toList_append, String.toList_append, List.append_assoc]
    rfl
  rw [parse?_eq_some_iff, whole]
  have blank : ∀ c ∈ [' '], Text.isBlank c = true := List.all_eq_true.mp rfl
  rcases Text.trim_append_append s.toList t.toList blank with
    ⟨empty, same⟩ | ⟨empty, same⟩ | ⟨ne, between, blanks, same⟩
  · rw [empty] at first
    rw [same, eq_nil_of_spells_nil first]
    exact second
  · rw [empty] at second
    rw [same, eq_nil_of_spells_nil second, List.append_nil]
    exact first
  · rw [same]
    refine first.append (fun none => ne (spells_nil_iff.mp (none ▸ first))) ?_ second
    exact fun c hc => Text.isListSeparator_of_isBlank (blanks c hc)

end TransformList
end LaserCut
