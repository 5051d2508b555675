import LaserCut.Proofs.Reals
import LaserCut.Proofs.Svg.TransformGrammar
import LaserCut.Proofs.Svg.TransformScanner
import LaserCut.Svg.Walk

/-!
# What a transform list does to points

* `Transform.parse`: the map that a text describes, or the error that names the text;
* `TransformItem.act`: where one item takes a point;
* `Transform.apply_ofItems`: in exact arithmetic the map of a list takes a point where its items
  take it, the last one first;
* `Transform.ofItems_append`: the map of two lists in a row is the product of their maps;
* `Transform.parse_describes`: all of it for any text.
-/

namespace LaserCut

open Svg (DocumentError)

/-! ## Products of maps -/

namespace Transform

section Exact

attribute [local instance] ExactArithmetic.commRing

variable {α : Type} [Scalar α] [ExactArithmetic α]

theorem identity_compose (t : Transform α) : identity.compose t = t := by
  obtain ⟨a, b, c, d, e, f⟩ := t
  simp only [compose, identity, mk.injEq]
  refine ⟨?_, ?_, ?_, ?_, ?_, ?_⟩ <;> ring

theorem compose_assoc (r s t : Transform α) :
    (r.compose s).compose t = r.compose (s.compose t) := by
  simp only [compose, mk.injEq]
  refine ⟨?_, ?_, ?_, ?_, ?_, ?_⟩ <;> ring

theorem compose_identity (t : Transform α) : t.compose identity = t := by
  obtain ⟨a, b, c, d, e, f⟩ := t
  simp only [compose, identity, mk.injEq]
  refine ⟨?_, ?_, ?_, ?_, ?_, ?_⟩ <;> ring

end Exact

variable {α : Type} [Scalar α] [ExactArithmetic α]

/-- The last factor acts first. -/
theorem apply_composeAll (s : Transform α) (ts : List (Transform α)) (p : Point α) :
    (s.composeAll ts).apply p = s.apply (ts.foldr apply p) := by
  induction ts generalizing s with
  | nil => rfl
  | cons t ts ih =>
    show ((s.compose t).composeAll ts).apply p = _
    rw [ih, apply_compose]
    rfl

theorem composeAll_eq_compose (s : Transform α) (ts : List (Transform α)) :
    s.composeAll ts = s.compose (identity.composeAll ts) := by
  induction ts generalizing s with
  | nil => exact (compose_identity s).symm
  | cons t ts ih =>
    show (s.compose t).composeAll ts = s.compose ((identity.compose t).composeAll ts)
    rw [ih, ih (identity.compose t), identity_compose, compose_assoc]

end Transform

/-! ## The maps of items -/

theorem Point.sub_eq_mk {α : Type} [Scalar α] (p q : Point α) : p - q = ⟨p.x - q.x, p.y - q.y⟩ :=
  rfl

/-- A point turned about the origin, by an angle in degrees. -/
def Point.turned {α : Type} [Scalar α] (degrees : α) (p : Point α) : Point α where
  x := Scalar.cos (Scalar.radians degrees) * p.x - Scalar.sin (Scalar.radians degrees) * p.y
  y := Scalar.sin (Scalar.radians degrees) * p.x + Scalar.cos (Scalar.radians degrees) * p.y

namespace TransformItem

variable {ν α : Type} [Scalar α] (value : ν → α)

/-- Where an item takes a point. -/
def act : TransformItem ν → Point α → Point α
  | matrix m, p =>
    ⟨value m.a * p.x + value m.c * p.y + value m.e, value m.b * p.x + value m.d * p.y + value m.f⟩
  | translate x none, p => ⟨p.x + value x, p.y⟩
  | translate x (some y), p => ⟨p.x + value x, p.y + value y⟩
  | scale k none, p => ⟨value k * p.x, value k * p.y⟩
  | scale x (some y), p => ⟨value x * p.x, value y * p.y⟩
  | rotate degrees none, p => p.turned (value degrees)
  | rotate degrees (some center), p =>
    center.map value + (p - center.map value).turned (value degrees)
  | skewX degrees, p => ⟨p.x + Scalar.tan (Scalar.radians (value degrees)) * p.y, p.y⟩
  | skewY degrees, p => ⟨p.x, Scalar.tan (Scalar.radians (value degrees)) * p.x + p.y⟩

attribute [local instance] ExactArithmetic.commRing in
/-- The factors of an item, the last one first, take a point where the item does. -/
theorem foldr_factors [ExactArithmetic α] (item : TransformItem ν) (p : Point α) :
    (item.factors value).foldr Transform.apply p = item.act value p := by
  obtain ⟨px, py⟩ := p
  cases item with
  | matrix m => rfl
  | translate x y =>
    cases y <;>
      simp only [factors, List.foldr_cons, List.foldr_nil, Transform.apply, Transform.shift, act,
        Option.map_none, Option.map_some, Option.getD_none, Option.getD_some, Point.mk.injEq] <;>
      constructor <;> ring
  | scale x y =>
    cases y <;>
      simp only [factors, List.foldr_cons, List.foldr_nil, Transform.apply, Transform.scaling, act,
        Option.map_none, Option.map_some, Option.getD_none, Option.getD_some, Point.mk.injEq] <;>
      constructor <;> ring
  | rotate degrees center =>
    cases center with
    | none =>
      simp only [factors, List.foldr_cons, List.foldr_nil, Transform.apply, Transform.rotation, act,
        Point.turned, Point.mk.injEq]
      constructor <;> ring
    | some center =>
      simp only [factors, List.foldr_cons, List.foldr_nil, Transform.apply, Transform.rotationAbout,
        Transform.shift, Transform.rotation, act, Point.turned, Point.map, Point.add_eq_mk,
        Point.sub_eq_mk, Point.mk.injEq]
      constructor <;> ring
  | skewX degrees =>
    simp only [factors, List.foldr_cons, List.foldr_nil, Transform.apply, Transform.skewX, act,
      Point.mk.injEq]
    constructor <;> ring
  | skewY degrees =>
    simp only [factors, List.foldr_cons, List.foldr_nil, Transform.apply, Transform.skewY, act,
      Point.mk.injEq]
    constructor <;> ring

end TransformItem

namespace Transform

variable {α : Type} [Scalar α]

/-! ## Lists -/

section Lists

variable [ExactArithmetic α]

/-- The map of a list takes a point where its items take it, the last one first. -/
theorem apply_ofItems (items : List (TransformItem Literal)) (p : Point α) :
    (ofItems items).apply p = items.foldr (TransformItem.act Scalar.ofLiteral) p := by
  rw [ofItems, apply_composeAll, identity_apply, List.foldr_flatMap]
  simp only [TransformItem.foldr_factors]

/-- The map of two lists in a row is the product of their maps. -/
theorem ofItems_append (items others : List (TransformItem Literal)) :
    (ofItems (items ++ others) : Transform α) = (ofItems items).compose (ofItems others) := by
  rw [ofItems, List.flatMap_append, composeAll, List.foldl_append]
  exact composeAll_eq_compose (ofItems items) _

end Lists

/-! ## Texts -/

/-- The map that a transform list describes, or the error that carries its text. -/
def parse (s : String) : Except DocumentError (Transform α) :=
  match ofText? s with
  | some t => .ok t
  | none => .error (.invalidTransform s)

/-- The map of an element is the outer one after that of its list, if the list is read. -/
theorem mapError_elementTransform (outer : Transform α) (e : Element) :
    (Svg.elementTransform outer e).mapError .invalidTransform =
      match e.attribute? "transform" with
      | some s => (parse s).map outer.compose
      | none => .ok outer := by
  unfold Svg.elementTransform
  cases e.attribute? "transform" with
  | none => rfl
  | some s =>
    dsimp only
    rw [parse]
    cases (ofText? s : Option (Transform α)) <;> rfl

theorem parse_eq_ok_iff {s : String} {t : Transform α} :
    parse s = .ok t ↔ ∃ items, TransformList.parse? s = some items ∧ ofItems items = t := by
  rw [parse, ofText?]
  cases TransformList.parse? s with
  | none => exact iff_of_false nofun nofun
  | some items =>
    show Except.ok (ofItems items) = .ok t ↔ _
    simp

theorem eq_invalidTransform_of_parse {s : String} {e : DocumentError}
    (h : parse (α := α) s = .error e) : e = .invalidTransform s := by
  unfold parse at h
  split at h <;> cases h
  rfl

/-- The reader of transform lists. It never slices the text out of place; it reads the texts that
are written as lists once they are trimmed, and an error carries the whole text. In exact arithmetic
the map that is read takes a point where the items take it in turn, the last one first, and two
lists with a blank between them describe the product of their maps. -/
theorem parse_describes (α : Type) [Scalar α] (s : String) :
    TransformList.scan (Text.trimmed s) = some (TransformList.parse? s) ∧
      ((∃ t : Transform α, parse s = .ok t) ↔
        ∃ items, TransformList.Spells items (Text.trim s.toList)) ∧
      (∀ e, parse (α := α) s = .error e → e = .invalidTransform s) ∧
      ∀ [ExactArithmetic α],
        (∀ (items : List (TransformItem Literal)) (t : Transform α),
          TransformList.Spells items (Text.trim s.toList) → parse s = .ok t →
            ∀ p, t.apply p = items.foldr (TransformItem.act Scalar.ofLiteral) p) ∧
        ∀ (s' : String) (t t' : Transform α), parse s = .ok t → parse s' = .ok t' →
          parse (s ++ " " ++ s') = .ok (t.compose t') := by
  refine ⟨TransformList.scan_trimmed s, ?_, fun e => eq_invalidTransform_of_parse, ?_⟩
  · simp only [parse_eq_ok_iff, TransformList.parse?_eq_some_iff]
    exact ⟨fun ⟨_, items, spelled, _⟩ => ⟨items, spelled⟩,
      fun ⟨items, spelled⟩ => ⟨_, items, spelled, rfl⟩⟩
  · intro _
    refine ⟨fun items t spelled read p => ?_, fun s' t t' read read' => ?_⟩
    · obtain ⟨found, parsed, rfl⟩ := parse_eq_ok_iff.mp read
      obtain rfl := Option.some.inj
        (parsed.symm.trans (TransformList.parse?_eq_some_iff.mpr spelled))
      exact apply_ofItems found p
    · obtain ⟨items, parsed, rfl⟩ := parse_eq_ok_iff.mp read
      obtain ⟨others, parsed', rfl⟩ := parse_eq_ok_iff.mp read'
      exact parse_eq_ok_iff.mpr
        ⟨_, TransformList.parse?_append parsed parsed', ofItems_append items others⟩

/-- A list with blanks beyond ASCII, and a list of one item. -/
theorem parse_describes_scaledShift :
    ∃ t t' : Transform ℝ, parse "translate\u00a0(10,20) , scale( 2 ) " = .ok t ∧
      parse "rotate(90, 10, 10)" = .ok t' ∧ (∀ p, t.apply p = ⟨2 * p.x + 10, 2 * p.y + 20⟩) ∧
      parse ("translate\u00a0(10,20) , scale( 2 ) " ++ " " ++ "rotate(90, 10, 10)") =
        .ok (t.compose t') := by
  have parsed : TransformList.parse? "translate\u00a0(10,20) , scale( 2 ) " =
      some [.translate (.ofNat 10) (some (.ofNat 20)), .scale (.ofNat 2) none] := by
    decide +kernel
  have parsed' : TransformList.parse? "rotate(90, 10, 10)" =
      some [.rotate (.ofNat 90) (some ⟨.ofNat 10, .ofNat 10⟩)] := by
    decide +kernel
  have read := parse_eq_ok_iff (α := ℝ).mpr ⟨_, parsed, rfl⟩
  have read' := parse_eq_ok_iff (α := ℝ).mpr ⟨_, parsed', rfl⟩
  obtain ⟨-, -, -, exact⟩ := parse_describes ℝ "translate\u00a0(10,20) , scale( 2 ) "
  obtain ⟨maps, product⟩ := exact
  refine ⟨_, _, read, read', fun p => ?_, product _ _ _ read read'⟩
  rw [maps _ _ (TransformList.parse?_eq_some_iff.mp parsed) read p]
  show Point.mk (Scalar.ofNat 2 * p.x + Scalar.ofNat 10 : ℝ)
    (Scalar.ofNat 2 * p.y + Scalar.ofNat 20) = _
  rw [Exact.ofNat_eq, Exact.ofNat_eq, Exact.ofNat_eq]
  norm_num

end Transform
end LaserCut
