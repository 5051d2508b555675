import LaserCut.Proofs.PathData.Placing
import LaserCut.Proofs.Svg.Places
import LaserCut.Proofs.Svg.TransformMaps

/-!
# Drawings under an outer map

In exact arithmetic. A walk applies the root's transform outside every element's own map, and the
flip outside both. What it draws is the drawing in its own coordinates, mapped as a whole:

* `visits_under`: an outer map changes which maps are visited, and nothing else;
* `curvesBelow_agree`: every curve is the image, under one map of the plane, of the curve that the
  walk without transform and flip draws in its place, and where the one walk fails so does the
  other.
-/

namespace LaserCut.Svg

open Curve (IsImage)
open Outcome (Agree)
open PathData (flippedPoint)

variable {α : Type} [Scalar α]

/-- The same visit with another map outside its own. -/
def Visit.under (t : Transform α) : Visit α → Visit α
  | .draw e own => .draw e (t.compose own)
  | .badTransform text => .badTransform text

def Context.under (t : Transform α) (c : Context α) : Context α :=
  { c with transform := t.compose c.transform }

/-- The drawing in its own coordinates: the walk without the root's transform and without a flip. -/
def WalkOptions.unplaced (options : WalkOptions α) : WalkOptions α :=
  { options with flips := false, rootTransform := Transform.identity }

/-- Where a walk that flips in the given height takes a point of the drawing. -/
def WalkOptions.place (options : WalkOptions α) (flip : Option α) (p : Point α) : Point α :=
  flippedPoint flip (options.rootTransform.apply p)

/-! ## Visits -/

section Visits

variable (t : Transform α) (drawHidden : Bool)

theorem elementTransform_under [ExactArithmetic α] (outer : Transform α) (e : Element) :
    elementTransform (t.compose outer) e = (elementTransform outer e).map t.compose := by
  unfold elementTransform
  cases e.attribute? "transform" with
  | none => rfl
  | some text =>
    dsimp only
    cases (Transform.ofText? text : Option (Transform α)) with
    | none => rfl
    | some own => exact congrArg Except.ok (Transform.compose_assoc t outer own)

mutual

theorem visits_under [ExactArithmetic α] (c : Context α) : ∀ e : Element,
    visits drawHidden (c.under t) e = (visits drawHidden c e).map (Visit.under t)
  | ⟨name, space, attributes, children⟩ => by
    rw [visits, visits]
    show (match enter? c.sought _ with | some sought => _ | none => _) = _
    rcases enter? c.sought _ with _ | sought
    · rfl
    · exact visitsOfList_under { c with sought } children

theorem visitsOfList_under [ExactArithmetic α] (c : Context α) : ∀ es : List Element,
    visitsOfList drawHidden (c.under t) es = (visitsOfList drawHidden c es).map (Visit.under t)
  | [] => rfl
  | e :: rest => by
    rw [visitsOfList, visitsOfList, visitsOfList_under c rest, List.map_append]
    congr 1
    split
    · rfl
    · show (match elementTransform (t.compose c.transform) e with | .error _ => _ | .ok _ => _) = _
      rw [elementTransform_under]
      rcases elementTransform c.transform e with text | own
      · rfl
      · have below := visits_under ⟨own, isVisible c.visible e, c.sought⟩ e
        show _ ++ visits drawHidden (Context.under t ⟨own, isVisible c.visible e, c.sought⟩) e = _
        rw [below, List.map_append, apply_ite (List.map (Visit.under t))]
        rfl

end

end Visits

/-! ## Curves -/

section Curves

variable (options : WalkOptions α) (flip : Option α)

theorem forall₂_isImage_between {m n : Point α → Point α} {curves images last : List (Curve α)}
    (first : List.Forall₂ (IsImage m) curves images)
    (second : List.Forall₂ (IsImage (n ∘ m)) curves last) :
    List.Forall₂ (IsImage n) images last := by
  induction first generalizing last with
  | nil =>
    cases second
    exact .nil
  | cons image _ ih =>
    cases second with
    | cons last rest => exact .cons (image.between last) (ih rest)

section Exact

variable [ExactArithmetic α]

/-- An outline under one more map. -/
theorem outline_agree (d : String) (t own : Transform α) :
    Agree (List.Forall₂ (IsImage fun p => flippedPoint flip (t.apply p)))
      (PathData.outline d own none) (PathData.outline d (t.compose own) flip) := by
  refine (Agree.refl (R := Eq) (fun _ => rfl) (PathData.curves d)).map ?_
  rintro raw _ rfl
  have inner := PathData.isPlaced_placed own none raw
  have outer := PathData.isPlaced_placed (t.compose own) flip raw
  have maps : (fun p => flippedPoint flip ((t.compose own).apply p)) =
      (fun p => flippedPoint flip (t.apply p)) ∘ fun p => flippedPoint none (own.apply p) :=
    funext fun p => congrArg (flippedPoint flip) (Transform.apply_compose t own p)
  rw [PathData.IsPlaced, maps] at outer
  exact forall₂_isImage_between inner outer

theorem elementCurves_agree (e : Element) (t own : Transform α) :
    Agree (List.Forall₂ (IsImage fun p => flippedPoint flip (t.apply p)))
      (elementCurves e own none) (elementCurves e (t.compose own) flip) := by
  refine (Agree.refl (R := Eq) (fun _ => rfl) (pathData e)).bind ?_
  rintro data _ rfl
  cases data with
  | none => exact .ok .nil
  | some d => exact (outline_agree flip d t own).mapError _

end Exact

theorem collect_agree {β β' γ δ ε : Type} {R : γ → δ → Prop} {f : β → Except ε (List γ)}
    {g : β' → Except ε (List δ)} {v : β → β'} (h : ∀ x, Agree (List.Forall₂ R) (f x) (g (v x)))
    (xs : List β) : Agree (List.Forall₂ R) (collect f xs) (collect g (xs.map v)) := by
  induction xs with
  | nil => exact .ok .nil
  | cons x xs ih =>
    rw [List.map_cons, collect_cons, collect_cons]
    refine (h x).bind fun ys zs first => ih.bind fun ys' zs' rest => ?_
    exact .ok (List.rel_append first rest)

theorem curvesBelow_eq_collect (root : Element) (height : flipHeight options root = .ok flip) :
    curvesBelow options root =
      collect (Visit.curves flip) (visits options.drawHidden options.context root) := by
  rw [curvesBelow, height]
  rfl

/-- A drawing is placed as a whole: every curve is the image under one map of the plane of the curve
that the drawing has in its own coordinates. The first fault of the one is that of the other. -/
theorem curvesBelow_agree [ExactArithmetic α] (root : Element)
    (height : flipHeight options root = .ok flip) :
    Agree (List.Forall₂ (IsImage (options.place flip)))
      (curvesBelow options.unplaced root) (curvesBelow options root) := by
  have outer : options.context = options.unplaced.context.under options.rootTransform := by
    show Context.mk _ _ _ = Context.mk (options.rootTransform.compose Transform.identity) _ _
    rw [Transform.compose_identity]
    rfl
  rw [curvesBelow_eq_collect options.unplaced none root rfl,
    curvesBelow_eq_collect options flip root height, outer, visits_under]
  refine collect_agree (fun visit => ?_) _
  cases visit with
  | draw e own => exact elementCurves_agree flip e options.rootTransform own
  | badTransform text => exact .error _

end Curves

end LaserCut.Svg
