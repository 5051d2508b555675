import Mathlib.Analysis.Convex.Basic
import LaserCut.Proofs.Geometry.Deviation

/-!
# The control polygon

In exact arithmetic. A sample of a Bézier curve is found by going from point to point of the control
polygon again and again, always the same part of the way, so it is in every convex region that the
control points are in. The polyline of the curve joins samples, and stays there too.

* `controlPoints?`: the control points of a line or a Bézier curve, its ends included;
* `quadraticPoint_eq_lerp`, `cubicPoint_eq_lerp`: samples by interpolation alone;
* `subdivide_mem`, `flatten_mem`: what flattening keeps of a curve in a region;
* `onPolyline_inBox`: the polyline of a curve that is moved by any transforms, and cut to any
  tolerance, is in the box of the moved control points.
-/

namespace LaserCut

open Exact

/-! ## Convex regions -/

/-- A region that has the way between any two of its points in it. -/
def IsConvex (region : Set (Point ℝ)) : Prop :=
  ∀ p ∈ region, ∀ q ∈ region, ∀ t ∈ Set.Icc (0 : ℝ) 1, p.lerp q t ∈ region

/-- In the least box with sides along the axes that has the given points in it. -/
def InBox (points : List (Point ℝ)) (r : Point ℝ) : Prop :=
  ((∃ p ∈ points, p.x ≤ r.x) ∧ ∃ p ∈ points, r.x ≤ p.x) ∧
    (∃ p ∈ points, p.y ≤ r.y) ∧ ∃ p ∈ points, r.y ≤ p.y

theorem inBox_of_mem {points : List (Point ℝ)} {p : Point ℝ} (h : p ∈ points) : InBox points p :=
  ⟨⟨⟨p, h, le_rfl⟩, p, h, le_rfl⟩, ⟨p, h, le_rfl⟩, p, h, le_rfl⟩

/-- A number on the way from one to another lies between two that those lie between. -/
theorem lerp_bounds {a b t : ℝ} (h : t ∈ Set.Icc (0 : ℝ) 1) :
    min a b ≤ a + (b - a) * t ∧ a + (b - a) * t ≤ max a b := by
  have first : a ∈ Set.Icc (min a b) (max a b) := ⟨min_le_left a b, le_max_left a b⟩
  have last : b ∈ Set.Icc (min a b) (max a b) := ⟨min_le_right a b, le_max_right a b⟩
  rw [mul_comm]
  exact (convex_Icc (min a b) (max a b)).add_smul_sub_mem first last h

theorem isConvex_inBox (points : List (Point ℝ)) : IsConvex {r | InBox points r} := by
  rintro p ⟨⟨left, right⟩, below, above⟩ q ⟨⟨left', right'⟩, below', above'⟩ t ht
  -- The lesser of two numbers is one of them, and so is the greater.
  have least {f : Point ℝ → ℝ} {a b c : ℝ} (ha : ∃ p ∈ points, f p ≤ a)
      (hb : ∃ p ∈ points, f p ≤ b) (hc : min a b ≤ c) : ∃ p ∈ points, f p ≤ c := by
    rcases min_choice a b with first | second
    · obtain ⟨p, hp, le⟩ := ha
      exact ⟨p, hp, le.trans (first ▸ hc)⟩
    · obtain ⟨p, hp, le⟩ := hb
      exact ⟨p, hp, le.trans (second ▸ hc)⟩
  have greatest {f : Point ℝ → ℝ} {a b c : ℝ} (ha : ∃ p ∈ points, a ≤ f p)
      (hb : ∃ p ∈ points, b ≤ f p) (hc : c ≤ max a b) : ∃ p ∈ points, c ≤ f p := by
    rcases max_choice a b with first | second
    · obtain ⟨p, hp, le⟩ := ha
      exact ⟨p, hp, (first ▸ hc).trans le⟩
    · obtain ⟨p, hp, le⟩ := hb
      exact ⟨p, hp, (second ▸ hc).trans le⟩
  obtain ⟨lower, upper⟩ := lerp_bounds (a := p.x) (b := q.x) ht
  obtain ⟨lower', upper'⟩ := lerp_bounds (a := p.y) (b := q.y) ht
  exact ⟨⟨least left left' lower, greatest right right' upper⟩,
    least below below' lower', greatest above above' upper'⟩

namespace Curve

/-! ## Samples -/

/-- The control points of a line or a Bézier curve, its ends included. -/
def controlPoints? {α : Type} : Curve α → Option (List (Point α))
  | .line p q => some [p, q]
  | .quadratic p c q => some [p, c, q]
  | .cubic p c d q => some [p, c, d, q]
  | .arc _ => none

theorem quadraticPoint_eq_lerp (t : ℝ) (p c q : Point ℝ) :
    quadraticPoint t p c q = (p.lerp c t).lerp (c.lerp q t) t := by
  simp only [quadraticPoint, Point.lerp, Point.add_eq_mk, Point.mul_eq_mk, two_eq, Point.mk.injEq]
  constructor <;> ring

theorem cubicPoint_eq_lerp (t : ℝ) (p c d q : Point ℝ) :
    cubicPoint t p c d q =
      ((p.lerp c t).lerp (c.lerp d t) t).lerp ((c.lerp d t).lerp (d.lerp q t) t) t := by
  simp only [cubicPoint, Point.lerp, Point.add_eq_mk, Point.mul_eq_mk, three_eq, Point.mk.injEq]
  constructor <;> ring

section Region

variable {region : Set (Point ℝ)} {curve : Curve ℝ} {points : List (Point ℝ)}

theorem point_mem (convex : IsConvex region) (h : curve.controlPoints? = some points)
    (corners : ∀ p ∈ points, p ∈ region) (t : ℝ) : curve.point t ∈ region := by
  have unit := clampUnit_mem t
  have between {p q : Point ℝ} (hp : p ∈ region) (hq : q ∈ region) :
      p.lerp q (Scalar.clampUnit t) ∈ region := convex p hp q hq _ unit
  cases curve with
  | line p q =>
    cases h
    simp only [List.forall_mem_cons] at corners
    exact between corners.1 corners.2.1
  | quadratic p c q =>
    cases h
    simp only [List.forall_mem_cons] at corners
    obtain ⟨hp, hc, hq, -⟩ := corners
    show quadraticPoint _ p c q ∈ region
    rw [quadraticPoint_eq_lerp]
    exact between (between hp hc) (between hc hq)
  | cubic p c d q =>
    cases h
    simp only [List.forall_mem_cons] at corners
    obtain ⟨hp, hc, hd, hq, -⟩ := corners
    show cubicPoint _ p c d q ∈ region
    rw [cubicPoint_eq_lerp]
    exact between (between (between hp hc) (between hc hd))
      (between (between hc hd) (between hd hq))
  | arc a => cases h

theorem start_mem (h : curve.controlPoints? = some points) : curve.start ∈ points := by
  cases curve <;> cases h <;> exact List.mem_cons_self

theorem finish_mem (h : curve.controlPoints? = some points) : curve.finish ∈ points := by
  cases curve <;> cases h <;> simp [finish]

/-! ## Polylines in a region -/

theorem subdivide_mem (inside : ∀ t, curve.point t ∈ region) (tolerance : ℝ) :
    ∀ (left : Nat) (t₀ t₁ : ℝ) (p₀ p₁ : Point ℝ), p₁ ∈ region →
      ∀ p ∈ curve.subdivide tolerance left t₀ t₁ p₀ p₁, p ∈ region
  | 0, _, _, _, _, last => List.forall_mem_singleton.mpr last
  | left + 1, t₀, t₁, p₀, p₁, last => by
    unfold subdivide
    split
    · exact List.forall_mem_singleton.mpr last
    · exact List.forall_mem_append.mpr
        ⟨subdivide_mem inside tolerance left _ _ _ _ (inside _),
          subdivide_mem inside tolerance left _ _ _ _ last⟩

theorem flatten_mem (inside : ∀ t, curve.point t ∈ region) (last : curve.finish ∈ region)
    (tolerance : ℝ) : ∀ p ∈ curve.flatten tolerance, p ∈ region := by
  unfold flatten
  split
  · exact List.forall_mem_singleton.mpr last
  · exact subdivide_mem inside tolerance _ _ _ _ _ last

/-- A polyline whose vertices are in a convex region is in it. -/
theorem onPolyline_mem (convex : IsConvex region) {vertices : List (Point ℝ)}
    (inside : ∀ p ∈ vertices, p ∈ region) {r : Point ℝ} (h : OnPolyline vertices r) :
    r ∈ region := by
  obtain ⟨⟨p, q⟩, mem, u, u₀, u₁, rfl⟩ := h
  obtain ⟨hp, hq⟩ := List.of_mem_zip mem
  exact convex p (inside p hp) q (inside q (List.mem_of_mem_tail hq)) u ⟨u₀, u₁⟩

end Region

/-! ## Moved curves -/

section Moved

variable {curve : Curve ℝ} {points : List (Point ℝ)}

theorem controlPoints?_transformed (t : Transform ℝ) (h : curve.controlPoints? = some points) :
    (curve.transformed t).controlPoints? = some (points.map t.apply) := by
  cases curve <;> cases h <;> rfl

theorem controlPoints?_foldl (h : curve.controlPoints? = some points) (chain : List (Transform ℝ)) :
    (chain.foldl (fun c t => c.transformed t) curve).controlPoints? =
      some (points.map fun p => chain.foldl (fun q t => t.apply q) p) := by
  induction chain generalizing curve points with
  | nil => rw [List.foldl_nil, h, List.map_id'']; intro p; rfl
  | cons t chain ih =>
    rw [List.foldl_cons, ih (controlPoints?_transformed t h), List.map_map]
    rfl

/-- A line or a Bézier curve that is moved by any transforms, one after another, and cut to any
tolerance, has all points to visit, and all of the way there, in the box of its control points,
moved by the same transforms. -/
theorem onPolyline_inBox (h : curve.controlPoints? = some points) (chain : List (Transform ℝ))
    (tolerance : ℝ) :
    let moved := chain.foldl (fun c t => c.transformed t) curve
    let corners := points.map fun p => chain.foldl (fun q t => t.apply q) p
    moved.controlPoints? = some corners ∧ (∀ p ∈ moved.flatten tolerance, InBox corners p) ∧
      ∀ r, OnPolyline (moved.start :: moved.flatten tolerance) r → InBox corners r := by
  intro moved corners
  have control : moved.controlPoints? = some corners := controlPoints?_foldl h chain
  have inside (t : ℝ) : moved.point t ∈ {r | InBox corners r} :=
    point_mem (isConvex_inBox corners) control (fun _ => inBox_of_mem) t
  have visited : ∀ p ∈ moved.flatten tolerance, p ∈ {r | InBox corners r} :=
    flatten_mem inside (inBox_of_mem (finish_mem control)) tolerance
  refine ⟨control, visited, fun r on => onPolyline_mem (isConvex_inBox corners) ?_ on⟩
  exact List.forall_mem_cons.mpr ⟨inBox_of_mem (start_mem control), visited⟩

/-- A curve that is flipped and then pressed flat stays between its ends on a line. -/
theorem onPolyline_inBox_flat :
    let curve : Curve ℝ := .cubic ⟨0, 0⟩ ⟨0, 8⟩ ⟨8, 8⟩ ⟨8, 0⟩
    let flat : Curve ℝ := (curve.transformed (.verticalFlip 10)).transformed (.scaling 1 0)
    curve.controlPoints? = some [⟨0, 0⟩, ⟨0, 8⟩, ⟨8, 8⟩, ⟨8, 0⟩] ∧
      ∀ r, OnPolyline (flat.start :: flat.flatten 2) r → r.x ∈ Set.Icc 0 8 ∧ r.y = 0 := by
  intro curve flat
  refine ⟨rfl, fun r on => ?_⟩
  have inBox := (@onPolyline_inBox curve _ rfl [.verticalFlip 10, .scaling 1 0] 2).2.2 r on
  have corners : ([⟨0, 0⟩, ⟨0, 8⟩, ⟨8, 8⟩, ⟨8, 0⟩] : List (Point ℝ)).map
      (fun p => [.verticalFlip 10, .scaling 1 0].foldl (fun q t => Transform.apply t q) p) =
      [⟨0, 0⟩, ⟨0, 0⟩, ⟨8, 0⟩, ⟨8, 0⟩] := by
    simp [Transform.apply, Transform.verticalFlip, Transform.scaling]
  rw [corners] at inBox
  obtain ⟨⟨left, right⟩, below, above⟩ := inBox
  have left : 0 ≤ r.x ∨ 8 ≤ r.x := by simpa using left
  have right : r.x ≤ 0 ∨ r.x ≤ 8 := by simpa using right
  have level : r.y = 0 := le_antisymm (by simpa using above) (by simpa using below)
  refine ⟨⟨?_, ?_⟩, level⟩
  · rcases left with left | left <;> linarith
  · rcases right with right | right <;> linarith

end Moved

end Curve
end LaserCut
