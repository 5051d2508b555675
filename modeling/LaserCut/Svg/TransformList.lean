import LaserCut.Decimal.Literal
import LaserCut.Geometry.Transform
import LaserCut.Text.Fields

/-!
# Transform lists

The value of a `transform` attribute: items `name(arguments)`, with blanks and commas after each.

* `TransformItem`: the items, over any type of numbers;
* `TransformItem.factors`: the maps that an item stands for;
* `TransformList.parse?`: the items of a text;
* `Transform.ofText?`: the product of the items, so that the last one acts on a point first.
-/

namespace LaserCut

/-- An item of a transform list. What may be left out is optional. -/
inductive TransformItem (ν : Type)
  | matrix (m : Transform ν)
  | translate (x : ν) (y : Option ν)
  | scale (x : ν) (y : Option ν)
  | rotate (degrees : ν) (center : Option (Point ν))
  | skewX (degrees : ν)
  | skewY (degrees : ν)
deriving DecidableEq, Repr

namespace TransformItem

variable {ν : Type}

/-- The item with the given name and arguments. The name decides how many arguments there may be. -/
def ofArguments? (name : String) (arguments : List ν) : Option (TransformItem ν) :=
  match name, arguments with
  | "matrix", [a, b, c, d, e, f] => some (matrix ⟨a, b, c, d, e, f⟩)
  | "translate", [x] => some (translate x none)
  | "translate", [x, y] => some (translate x (some y))
  | "scale", [k] => some (scale k none)
  | "scale", [x, y] => some (scale x (some y))
  | "rotate", [angle] => some (rotate angle none)
  | "rotate", [angle, x, y] => some (rotate angle (some ⟨x, y⟩))
  | "skewX", [angle] => some (skewX angle)
  | "skewY", [angle] => some (skewY angle)
  | _, _ => none

/-- The maps that an item is the product of. A missing ordinate of a shift is zero, that of a
scale the same as the abscissa. -/
def factors {α : Type} [Scalar α] (value : ν → α) : TransformItem ν → List (Transform α)
  | matrix m => [⟨value m.a, value m.b, value m.c, value m.d, value m.e, value m.f⟩]
  | translate x y => [Transform.shift (value x) ((y.map value).getD 0)]
  | scale x y => [Transform.scaling (value x) ((y.map value).getD (value x))]
  | rotate angle none => [Transform.rotation (value angle)]
  | rotate angle (some p) => Transform.rotationAbout (value angle) (value p.x) (value p.y)
  | skewX angle => [Transform.skewX (value angle)]
  | skewY angle => [Transform.skewY (value angle)]

end TransformItem

namespace TransformList

/-- Numbers separated by blanks and commas. -/
def numbers? (cs : List Char) : Option (List Literal) :=
  (Text.fields Text.isListSeparator cs).mapM Literal.ofChars?

/-- A text before the first `mark`, and what follows the mark. -/
theorem length_lt_of_cutAt {mark : Char} {cs before after : List Char}
    (h : Text.cutAt mark cs = some (before, after)) : after.length < cs.length := by
  induction cs generalizing before after with
  | nil => simp [Text.cutAt] at h
  | cons c cs ih =>
    unfold Text.cutAt at h
    split at h
    · simp only [Option.some.injEq, Prod.mk.injEq] at h
      obtain ⟨-, rfl⟩ := h
      simp
    · obtain ⟨⟨b, a⟩, hp, he⟩ := Option.map_eq_some_iff.1 h
      simp only [Prod.mk.injEq] at he
      obtain ⟨-, rfl⟩ := he
      have := ih hp
      simp only [List.length_cons]
      omega

/-- The first item of a text, and what follows its closing bracket. -/
def item? (cs : List Char) : Option (TransformItem Literal × List Char) := do
  let (name, afterOpen) ← Text.cutAt '(' cs
  if ')' ∈ name then none
  else
    let (arguments, rest) ← Text.cutAt ')' afterOpen
    let numbers ← numbers? arguments
    let item ← TransformItem.ofArguments? (String.ofList (Text.trim name)) numbers
    return (item, rest)

theorem length_lt_of_item {cs rest : List Char} {item : TransformItem Literal}
    (h : item? cs = some (item, rest)) : rest.length < cs.length := by
  simp only [item?, Option.bind_eq_bind, Option.bind_eq_some_iff, Option.pure_def,
    Prod.exists] at h
  obtain ⟨_, after, h₁, h⟩ := h
  split at h
  · simp at h
  · simp only [Option.bind_eq_some_iff, Option.some.injEq, Prod.mk.injEq, Prod.exists] at h
    obtain ⟨_, tail, h₂, _, _, _, _, _, rfl⟩ := h
    have := length_lt_of_cutAt h₁
    have := length_lt_of_cutAt h₂
    omega

/-- The items of a text that begins with an item, if it is not empty. -/
def items? (cs : List Char) : Option (List (TransformItem Literal)) :=
  match cs with
  | [] => some []
  | c :: cs =>
    match h : item? (c :: cs) with
    | none => none
    | some (item, rest) =>
      have : rest.length < cs.length + 1 := length_lt_of_item h
      have := (List.dropWhile_suffix Text.isListSeparator (l := rest)).length_le
      (items? (rest.dropWhile Text.isListSeparator)).map (item :: ·)
termination_by cs.length

/-- The items of a transform list. -/
def parse? (s : String) : Option (List (TransformItem Literal)) :=
  items? (Text.trim s.toList)

end TransformList

/-- The product of the items of a transform list. -/
def Transform.ofItems {α : Type} [Scalar α] (items : List (TransformItem Literal)) : Transform α :=
  identity.composeAll (items.flatMap (TransformItem.factors Scalar.ofLiteral))

/-- The map that a transform list describes. -/
def Transform.ofText? {α : Type} [Scalar α] (s : String) : Option (Transform α) :=
  (TransformList.parse? s).map ofItems

end LaserCut
