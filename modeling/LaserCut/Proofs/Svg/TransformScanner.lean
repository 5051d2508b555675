import LaserCut.Proofs.Text.Fields
import LaserCut.Proofs.Text.Places
import LaserCut.Svg.TransformList

/-!
# Slicing transform lists

The reader of transform lists once more, over the bytes of the text: the first opening and the first
closing bracket are looked for independently, and the text is sliced at the offsets where they
stand. Both brackets are ASCII characters, so every slice begins and ends between two characters.

* `TransformList.scan`: the scanner, which has no answer where a slice is not in place;
* `TransformList.scan_trimmed`: it always has one, and the answer is that of `parse?`.
-/

namespace LaserCut.TransformList

open Text (byteSize cutAt slice?)

/-- Where the first `mark` of a text stands. -/
def find? (mark : Char) (s : String) : Option Nat :=
  (cutAt mark s.toList).map fun parts => byteSize parts.1

/-- The first item of a text and what follows it, if the text begins with an item. The outer option
is empty if a slice is not in place. -/
def firstItem? (rest : String) : Option (Option (TransformItem Literal × String)) :=
  match find? '(' rest, find? ')' rest with
  | some opening, some closing =>
    if closing < opening then some none
    else do
      let name ← slice? rest 0 opening
      let arguments ← slice? rest (opening + 1) closing
      let left ← slice? rest (closing + 1) rest.utf8ByteSize
      return do
        let numbers ← numbers? arguments.toList
        let item ← TransformItem.ofArguments? (Text.trimmed name) numbers
        return (item, left)
  | _, _ => some none

/-- What is left when the separators in front are dropped. -/
def skip (rest : String) : String := String.ofList (rest.toList.dropWhile Text.isListSeparator)

variable {rest : String} {name arguments left tail : List Char}

theorem find?_eq_some {mark : Char} {before after : List Char}
    (parts : rest.toList = before ++ mark :: after) (first : mark ∉ before) :
    find? mark rest = some (byteSize before) := by
  rw [find?, parts, Text.cutAt_append_cons first]
  rfl

theorem find?_eq_none {mark : Char} (absent : mark ∉ rest.toList) : find? mark rest = none := by
  rw [find?, Text.cutAt_eq_none_iff.mpr absent]
  rfl

/-- The bytes before the first opening bracket, between the brackets and after the closing one. -/
theorem slices_of_brackets (parts : rest.toList = name ++ '(' :: (arguments ++ ')' :: left)) :
    slice? rest 0 (byteSize name) = some (String.ofList name) ∧
      slice? rest (byteSize name + 1) (byteSize (name ++ '(' :: arguments)) =
        some (String.ofList arguments) ∧
      slice? rest (byteSize (name ++ '(' :: arguments) + 1) rest.utf8ByteSize =
        some (String.ofList left) := by
  have opening : '('.utf8Size = 1 := rfl
  have closing : ')'.utf8Size = 1 := rfl
  have none : byteSize [] = 0 := rfl
  refine ⟨?_, ?_, ?_⟩
  · exact Text.slice?_eq (parts.trans (List.nil_append _).symm) rfl rfl
  · refine Text.slice?_eq (parts.trans (List.append_cons ..)) ?_ ?_
    · rw [Text.byteSize_append, Text.byteSize_cons, none, opening]
    · simp only [Text.byteSize_append, Text.byteSize_cons, none, opening]
      omega
  · have split : rest.toList = (name ++ '(' :: (arguments ++ [')'])) ++ (left ++ []) := by
      simp only [parts, List.append_assoc, List.cons_append, List.nil_append, List.append_nil]
    refine Text.slice?_eq split ?_ ?_
    · simp only [Text.byteSize_append, Text.byteSize_cons, none, closing]
      omega
    · rw [← Text.byteSize_toList, split, List.append_nil]

/-- Where the text begins with a name, brackets and arguments, each slice is one of its parts. -/
theorem firstItem?_of_brackets (parts : rest.toList = name ++ '(' :: (arguments ++ ')' :: left))
    (opens : '(' ∉ name) (closes : ')' ∉ name) (inside : ')' ∉ arguments) :
    firstItem? rest = some (do
      let numbers ← numbers? arguments
      let item ← TransformItem.ofArguments? (String.ofList (Text.trim name)) numbers
      return (item, String.ofList left)) := by
  have before : ')' ∉ name ++ '(' :: arguments := by
    simp only [List.mem_append, List.mem_cons, not_or]
    exact ⟨closes, by decide, inside⟩
  have split : rest.toList = (name ++ '(' :: arguments) ++ ')' :: left := by
    rw [parts, List.append_assoc, List.cons_append]
  have ordered : ¬ byteSize (name ++ '(' :: arguments) < byteSize name := by
    rw [Text.byteSize_append]
    omega
  obtain ⟨first, second, third⟩ := slices_of_brackets parts
  rw [firstItem?, find?_eq_some parts opens, find?_eq_some split before]
  simp only [if_neg ordered, first, second, third, Option.bind_eq_bind, Option.bind_some,
    Text.trimmed, String.toList_ofList]
  rfl

/-- Where a closing bracket comes first, the text is refused before it is sliced. -/
theorem firstItem?_of_closing (parts : rest.toList = name ++ '(' :: tail) (opens : '(' ∉ name)
    (closes : ')' ∈ name) : firstItem? rest = some none := by
  cases cut : cutAt ')' name with
  | none => exact absurd closes (Text.cutAt_eq_none_iff.mp cut)
  | some pieces =>
    obtain ⟨before, after⟩ := pieces
    obtain ⟨rfl, first⟩ := Text.of_cutAt_eq_some cut
    have split : rest.toList = before ++ ')' :: (after ++ '(' :: tail) := by
      rw [parts, List.append_assoc, List.cons_append]
    have ordered : byteSize before < byteSize (before ++ ')' :: after) := by
      have := Char.utf8Size_pos ')'
      rw [Text.byteSize_append, Text.byteSize_cons]
      omega
    rw [firstItem?, find?_eq_some parts opens, find?_eq_some split first]
    exact if_pos ordered

/-- The slices are always in place, and the first item is the one that is read. -/
theorem firstItem?_eq (rest : String) :
    firstItem? rest =
      some ((item? rest.toList).map fun found => (found.1, String.ofList found.2)) := by
  unfold item?
  cases opening : cutAt '(' rest.toList with
  | none =>
    rw [firstItem?, find?_eq_none (Text.cutAt_eq_none_iff.mp opening)]
    rfl
  | some parts =>
    obtain ⟨name, tail⟩ := parts
    obtain ⟨parts, opens⟩ := Text.of_cutAt_eq_some opening
    simp only [Option.bind_eq_bind, Option.bind_some]
    split
    case isTrue closes => exact firstItem?_of_closing parts opens closes
    case isFalse closes =>
      cases closing : cutAt ')' tail with
      | none =>
        have absent : ')' ∉ rest.toList := by
          simp only [parts, List.mem_append, List.mem_cons, not_or]
          exact ⟨closes, by decide, Text.cutAt_eq_none_iff.mp closing⟩
        rw [firstItem?, find?_eq_none absent, find?_eq_some parts opens]
        rfl
      | some pieces =>
        obtain ⟨arguments, left⟩ := pieces
        obtain ⟨rfl, inside⟩ := Text.of_cutAt_eq_some closing
        rw [firstItem?_of_brackets parts opens closes inside]
        simp only [Option.bind_eq_bind, Option.bind_some, Option.map_bind, Function.comp_def]
        rfl

theorem exists_of_firstItem? {rest left : String} {item : TransformItem Literal}
    (h : firstItem? rest = some (some (item, left))) :
    item? rest.toList = some (item, left.toList) := by
  rw [firstItem?_eq, Option.some_inj] at h
  obtain ⟨⟨_, cs⟩, read, same⟩ := Option.map_eq_some_iff.mp h
  cases same
  rw [read, String.toList_ofList]

theorem length_skip_lt {rest left : String} {item : TransformItem Literal}
    (h : firstItem? rest = some (some (item, left))) :
    (skip left).toList.length < rest.toList.length := by
  have shorter := length_lt_of_item (exists_of_firstItem? h)
  have skipped := (List.dropWhile_suffix Text.isListSeparator (l := left.toList)).length_le
  rw [skip, String.toList_ofList]
  omega

/-- The items of a text that begins with an item, if it is not empty, by slices. -/
def scan (rest : String) : Option (Option (List (TransformItem Literal))) :=
  if rest = "" then some (some [])
  else
    match h : firstItem? rest with
    | none => none
    | some none => some none
    | some (some (item, left)) =>
      have := length_skip_lt h
      (scan (skip left)).map (Option.map (item :: ·))
termination_by rest.toList.length

theorem items?_eq_bind {cs : List Char} (ne : cs ≠ []) :
    items? cs = (item? cs).bind fun found =>
      (items? (found.2.dropWhile Text.isListSeparator)).map (found.1 :: ·) := by
  cases cs with
  | nil => exact absurd rfl ne
  | cons c cs =>
    rw [items?]
    split
    · rename_i none
      rw [none]
      rfl
    · rename_i some
      simp only [some, Option.bind_some]

/-- The slices are always in place, and the scanner reads the items that `items?` reads. -/
theorem scan_eq (rest : String) : scan rest = some (items? rest.toList) := by
  fun_induction scan rest with
  | case1 => rw [String.toList_empty, items?]
  | case2 rest ne crash =>
    exact absurd ((firstItem?_eq rest).symm.trans crash) (Option.some_ne_none _)
  | case3 rest ne none =>
    have read := Option.some.inj (none.symm.trans (firstItem?_eq rest))
    rw [items?_eq_bind (mt String.toList_eq_nil_iff.mp ne), Option.map_eq_none_iff.mp read.symm]
    rfl
  | case4 rest ne item left some _ ih =>
    rw [items?_eq_bind (mt String.toList_eq_nil_iff.mp ne), exists_of_firstItem? some, ih, skip,
      String.toList_ofList]
    rfl

/-- The scanner of a whole text, which is trimmed first. -/
theorem scan_trimmed (s : String) : scan (Text.trimmed s) = some (parse? s) := by
  rw [scan_eq, Text.trimmed, String.toList_ofList]
  rfl

end LaserCut.TransformList
