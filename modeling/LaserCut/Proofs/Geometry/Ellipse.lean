import LaserCut.Geometry.Curve
import LaserCut.Proofs.Reals

/-!
# From end points to ellipses

In exact arithmetic. An arc is given by its ends, two radii, a rotation and two flags; `Arc.solve`
finds the ellipse and the angles.

* `OnEllipse`, `Reaches`: the ellipse as a set of points, and radii that reach from one point to
  another;
* `reaches_iff`: when they do, by the `stretch` of the chord in units of the radii;
* `exp_startAngle`, `exp_finishAngle`: where the two angles of a solved arc point to;
* `ofArc?_isSolution`: the arc has its ends on its ellipse, with the smallest radii that reach, and
  runs from end to end.
-/

namespace LaserCut.Arc

open Exact

/-! ## Axes -/

section Axes

variable (rotation : ℝ)

/-- The coordinates of a vector in axes turned by an angle. -/
noncomputable def toAxes (v : Point ℝ) : Point ℝ :=
  ⟨Real.cos rotation * v.x + Real.sin rotation * v.y,
    -Real.sin rotation * v.x + Real.cos rotation * v.y⟩

/-- The vector with the given coordinates in axes turned by an angle. -/
noncomputable def fromAxes (v : Point ℝ) : Point ℝ :=
  ⟨Real.cos rotation * v.x - Real.sin rotation * v.y,
    Real.sin rotation * v.x + Real.cos rotation * v.y⟩

theorem toAxes_fromAxes (v : Point ℝ) : toAxes rotation (fromAxes rotation v) = v := by
  have unit := Real.sin_sq_add_cos_sq rotation
  obtain ⟨x, y⟩ := v
  simp only [toAxes, fromAxes, Point.mk.injEq]
  constructor
  · linear_combination x * unit
  · linear_combination y * unit

theorem fromAxes_toAxes (v : Point ℝ) : fromAxes rotation (toAxes rotation v) = v := by
  have unit := Real.sin_sq_add_cos_sq rotation
  obtain ⟨x, y⟩ := v
  simp only [toAxes, fromAxes, Point.mk.injEq]
  constructor
  · linear_combination x * unit
  · linear_combination y * unit

theorem fromAxes_add_center {p center w : Point ℝ} (h : toAxes rotation (p - center) = w) :
    fromAxes rotation w + center = p := by
  rw [← h, fromAxes_toAxes]
  simp only [Point.sub_def, Point.add_def, sub_add_cancel]

end Axes

/-! ## Points of an ellipse -/

/-- A point of the ellipse with the given centre, radii and rotation. -/
def OnEllipse (center radii : Point ℝ) (rotation : ℝ) (p : Point ℝ) : Prop :=
  ((toAxes rotation (p - center)).x / radii.x) ^ 2 +
    ((toAxes rotation (p - center)).y / radii.y) ^ 2 = 1

/-- Some ellipse with the given radii and rotation goes through both points. -/
def Reaches (radii : Point ℝ) (rotation : ℝ) (start finish : Point ℝ) : Prop :=
  ∃ center, OnEllipse center radii rotation start ∧ OnEllipse center radii rotation finish

/-- The square of half a chord in units of the radii. -/
noncomputable def stretch (radii half : Point ℝ) : ℝ :=
  (half.x / radii.x) ^ 2 + (half.y / radii.y) ^ 2

theorem stretch_mul (radii half : Point ℝ) (k : ℝ) :
    stretch (radii * k) half = stretch radii half / k ^ 2 := by
  simp only [stretch, Point.mul_def, div_mul_eq_div_div, div_pow, add_div]

/-! ## The chord -/

section Chord

variable (rotation : ℝ) (start finish : Point ℝ)

/-- Half a chord in the axes of the ellipse. -/
noncomputable def halfOf : Point ℝ :=
  halfChord start finish (Real.sin rotation) (Real.cos rotation)

theorem halfOf_eq :
    halfOf rotation start finish =
      toAxes rotation ⟨(start.x - finish.x) / 2, (start.y - finish.y) / 2⟩ := by
  simp only [halfOf, halfChord, two_eq]
  rfl

/-- Half a chord from its ends as seen from any centre. -/
theorem halfOf_eq_sub (center : Point ℝ) :
    halfOf rotation start finish =
      ⟨((toAxes rotation (start - center)).x - (toAxes rotation (finish - center)).x) / 2,
        ((toAxes rotation (start - center)).y - (toAxes rotation (finish - center)).y) / 2⟩ := by
  simp only [halfOf_eq, toAxes, Point.sub_def, Point.mk.injEq]
  constructor <;> ring

/-- The start as seen from a centre that is given relative to the middle of the chord. -/
theorem toAxes_start_sub (offset : Point ℝ) :
    toAxes rotation (start - (fromAxes rotation offset + start.midpoint finish)) =
      ⟨(halfOf rotation start finish).x - offset.x,
        (halfOf rotation start finish).y - offset.y⟩ := by
  have unit := Real.sin_sq_add_cos_sq rotation
  rw [halfOf_eq]
  simp only [toAxes, fromAxes, Point.midpoint_def, Point.sub_def, Point.add_def, Point.mk.injEq]
  constructor
  · linear_combination -offset.x * unit
  · linear_combination -offset.y * unit

theorem toAxes_finish_sub (offset : Point ℝ) :
    toAxes rotation (finish - (fromAxes rotation offset + start.midpoint finish)) =
      ⟨-(halfOf rotation start finish).x - offset.x,
        -(halfOf rotation start finish).y - offset.y⟩ := by
  have unit := Real.sin_sq_add_cos_sq rotation
  rw [halfOf_eq]
  simp only [toAxes, fromAxes, Point.midpoint_def, Point.sub_def, Point.add_def, Point.mk.injEq]
  constructor
  · linear_combination -offset.x * unit
  · linear_combination -offset.y * unit

theorem stretch_pos {radii : Point ℝ} (hx : radii.x ≠ 0) (hy : radii.y ≠ 0) (h : start ≠ finish) :
    0 < stretch radii (halfOf rotation start finish) := by
  rw [stretch]
  by_contra! nonpos
  have x : (halfOf rotation start finish).x / radii.x = 0 := by
    refine pow_eq_zero_iff two_ne_zero |>.mp (le_antisymm ?_ (sq_nonneg _))
    linarith [sq_nonneg ((halfOf rotation start finish).y / radii.y)]
  have y : (halfOf rotation start finish).y / radii.y = 0 := by
    refine pow_eq_zero_iff two_ne_zero |>.mp (le_antisymm ?_ (sq_nonneg _))
    linarith [sq_nonneg ((halfOf rotation start finish).x / radii.x)]
  have half := fromAxes_toAxes rotation ⟨(start.x - finish.x) / 2, (start.y - finish.y) / 2⟩
  rw [← halfOf_eq, fromAxes, (div_eq_zero_iff.mp x).resolve_right hx,
    (div_eq_zero_iff.mp y).resolve_right hy] at half
  simp only [mul_zero, add_zero, sub_zero, Point.mk.injEq] at half
  apply h
  obtain ⟨sx, sy⟩ := start
  obtain ⟨fx, fy⟩ := finish
  rw [Point.mk.injEq]
  constructor <;> linarith

end Chord

/-! ## The centre -/

/-- How far the centre lies across the chord, in units of half the chord, and on which side. -/
noncomputable def crossing (radii half : Point ℝ) (large sweep : Bool) : ℝ :=
  if large = sweep then -√((1 - stretch radii half) / stretch radii half)
  else √((1 - stretch radii half) / stretch radii half)

section Center

variable {radii half : Point ℝ} (hx : radii.x ≠ 0) (hy : radii.y ≠ 0)

include hx hy

theorem num_div_den :
    (radii.x * radii.x * (radii.y * radii.y) - radii.x * radii.x * half.y * half.y -
        radii.y * radii.y * half.x * half.x) /
      (radii.x * radii.x * half.y * half.y + radii.y * radii.y * half.x * half.x) =
        (1 - stretch radii half) / stretch radii half := by
  have den : radii.x * radii.x * half.y * half.y + radii.y * radii.y * half.x * half.x =
      (radii.x * radii.y) ^ 2 * stretch radii half := by
    rw [stretch]
    field_simp
    ring
  have num : radii.x * radii.x * (radii.y * radii.y) - radii.x * radii.x * half.y * half.y -
      radii.y * radii.y * half.x * half.x =
        (radii.x * radii.y) ^ 2 * (1 - stretch radii half) := by
    linear_combination -den
  rw [num, den, mul_div_mul_left _ _ (pow_ne_zero 2 (mul_ne_zero hx hy))]

variable (pos : 0 < stretch radii half) (le : stretch radii half ≤ 1) (large sweep : Bool)

include pos le

theorem centerOffset_eq :
    centerOffset radii half large sweep =
      ⟨crossing radii half large sweep * radii.x * half.y / radii.y,
        -crossing radii half large sweep * radii.y * half.x / radii.x⟩ := by
  let square := (1 - stretch radii half) / stretch radii half
  have nonneg : 0 ≤ square := div_nonneg (sub_nonneg.mpr le) pos.le
  have offset : centerOffset radii half large sweep =
      let coef := if large = sweep then -√(Scalar.clampNonneg square)
        else √(Scalar.clampNonneg square)
      ⟨coef * radii.x * half.y / radii.y, -coef * radii.y * half.x / radii.x⟩ := by
    rw [show square = _ from (num_div_den hx hy).symm]
    rfl
  rw [clampNonneg_eq nonneg] at offset
  exact offset

omit hx hy in
theorem crossing_sq :
    crossing radii half large sweep ^ 2 * stretch radii half = 1 - stretch radii half := by
  have root : √((1 - stretch radii half) / stretch radii half) ^ 2 * stretch radii half =
      1 - stretch radii half := by
    rw [Real.sq_sqrt (div_nonneg (sub_nonneg.mpr le) pos.le), div_mul_cancel₀ _ pos.ne']
  rw [crossing]
  split
  · rw [neg_sq, root]
  · exact root

/-- The centre lies across the chord. -/
theorem exists_centerOffset_eq :
    ∃ coef : ℝ, coef ^ 2 * stretch radii half = 1 - stretch radii half ∧
      centerOffset radii half large sweep =
        ⟨coef * radii.x * half.y / radii.y, -coef * radii.y * half.x / radii.x⟩ :=
  ⟨_, crossing_sq pos le large sweep, centerOffset_eq hx hy pos le large sweep⟩

/-- Both ends lie on the ellipse, in its axes and units of its radii. -/
theorem ends_of_centerOffset :
    let c := centerOffset radii half large sweep
    ((half.x - c.x) / radii.x) ^ 2 + ((half.y - c.y) / radii.y) ^ 2 = 1 ∧
      ((-half.x - c.x) / radii.x) ^ 2 + ((-half.y - c.y) / radii.y) ^ 2 = 1 := by
  obtain ⟨coef, square, offset⟩ := exists_centerOffset_eq hx hy pos le large sweep
  have radius : (half.x / radii.x) ^ 2 * (1 + coef ^ 2) +
      (half.y / radii.y) ^ 2 * (1 + coef ^ 2) = 1 := by
    rw [stretch] at square
    linear_combination square
  rw [offset]
  constructor
  · rw [← radius]
    field_simp
    ring
  · rw [← radius]
    field_simp
    ring

end Center

/-! ## Radii that reach -/

section Reach

variable {radii : Point ℝ} (hx : radii.x ≠ 0) (hy : radii.y ≠ 0) {start finish : Point ℝ}
  (h : start ≠ finish) (rotation : ℝ)

include hx hy h

/-- Radii reach as far as twice their length, in any direction. -/
theorem reaches_iff :
    Reaches radii rotation start finish ↔ stretch radii (halfOf rotation start finish) ≤ 1 := by
  constructor
  · rintro ⟨center, first, last⟩
    -- In units of the radii the ends are unit vectors, whose half difference is no longer than one.
    rw [halfOf_eq_sub rotation start finish center, stretch]
    rw [OnEllipse] at first last
    generalize toAxes rotation (start - center) = u at *
    generalize toAxes rotation (finish - center) = v at *
    calc
      ((u.x - v.x) / 2 / radii.x) ^ 2 + ((u.y - v.y) / 2 / radii.y) ^ 2
      _ = (((u.x / radii.x) ^ 2 + (u.y / radii.y) ^ 2) +
            ((v.x / radii.x) ^ 2 + (v.y / radii.y) ^ 2)) / 2 -
          (((u.x + v.x) / 2 / radii.x) ^ 2 + ((u.y + v.y) / 2 / radii.y) ^ 2) := by ring
      _ ≤ 1 := by
        rw [first, last]
        linarith [sq_nonneg ((u.x + v.x) / 2 / radii.x), sq_nonneg ((u.y + v.y) / 2 / radii.y)]
  · intro le
    have pos := stretch_pos rotation start finish hx hy h
    have ends := ends_of_centerOffset hx hy pos le true true
    refine ⟨fromAxes rotation (centerOffset radii (halfOf rotation start finish) true true) +
      start.midpoint finish, ?_, ?_⟩
    · rw [OnEllipse, toAxes_start_sub]
      exact ends.1
    · rw [OnEllipse, toAxes_finish_sub]
      exact ends.2

/-- The least factor that makes radii reach. -/
theorem isLeast_reaches :
    IsLeast {k : ℝ | 0 < k ∧ Reaches (radii * k) rotation start finish}
      √(stretch radii (halfOf rotation start finish)) := by
  have pos := stretch_pos rotation start finish hx hy h
  have scaled {k : ℝ} (hk : 0 < k) : Reaches (radii * k) rotation start finish ↔
      √(stretch radii (halfOf rotation start finish)) ≤ k := by
    rw [reaches_iff (mul_ne_zero hx hk.ne') (mul_ne_zero hy hk.ne') h, Real.sqrt_le_left hk.le,
      ← div_le_one (pow_pos hk 2), stretch_mul]
  constructor
  · exact ⟨Real.sqrt_pos.mpr pos, (scaled (Real.sqrt_pos.mpr pos)).mpr le_rfl⟩
  · rintro k ⟨hk, reaches⟩
    exact (scaled hk).mp reaches

end Reach

/-! ## Angles -/

section Angles

/-- The angle between two vectors as an argument. -/
theorem angleBetween_eq (u v : Point ℝ) :
    angleBetween u v = Complex.arg (starRingEnd ℂ u.toComplex * v.toComplex) := by
  show Complex.arg ⟨u.x * v.x + u.y * v.y, u.x * v.y - u.y * v.x⟩ = _
  congr 1
  apply Complex.ext
  · simp [Point.toComplex]
  · simp [Point.toComplex]
    ring

theorem exp_angleBetween {u v : Point ℝ} (hu : ‖u.toComplex‖ = 1) (hv : ‖v.toComplex‖ = 1) :
    Complex.exp (angleBetween u v * Complex.I) = starRingEnd ℂ u.toComplex * v.toComplex := by
  have unit : ‖starRingEnd ℂ u.toComplex * v.toComplex‖ = 1 := by
    rw [norm_mul, RCLike.norm_conj, hu, hv, one_mul]
  rw [angleBetween_eq]
  have := Complex.norm_mul_exp_arg_mul_I (starRingEnd ℂ u.toComplex * v.toComplex)
  rwa [unit, Complex.ofReal_one, one_mul] at this

/-- A full turn more or less does not change where an angle points to. -/
theorem exp_directedSweep (sweep : Bool) (angle : ℝ) :
    Complex.exp (directedSweep sweep angle * Complex.I) = Complex.exp (angle * Complex.I) := by
  have turn : ((Scalar.two * Scalar.pi : ℝ) : ℂ) * Complex.I = 2 * Real.pi * Complex.I := by
    rw [two_eq, Complex.ofReal_mul, Complex.ofReal_ofNat]
    rfl
  rw [directedSweep]
  split
  · rw [Complex.ofReal_sub, sub_mul, turn]
    exact Complex.exp_periodic.sub_eq _
  · split
    · rw [Complex.ofReal_add, add_mul, turn]
      exact Complex.exp_periodic _
    · rfl

end Angles

/-! ## Points by angle -/

section Points

variable (arc : Arc ℝ)

theorem ellipsePoint_eq (angle : ℝ) :
    arc.ellipsePoint angle =
      fromAxes arc.rotation ⟨arc.radii.x * Real.cos angle, arc.radii.y * Real.sin angle⟩ +
        arc.center := rfl

theorem ellipsePoint_of_exp {angle : ℝ} {w : Point ℝ}
    (h : Complex.exp (angle * Complex.I) = w.toComplex) :
    arc.ellipsePoint angle =
      fromAxes arc.rotation ⟨arc.radii.x * w.x, arc.radii.y * w.y⟩ + arc.center := by
  have cos : Real.cos angle = w.x := by rw [← Complex.exp_ofReal_mul_I_re, h]; rfl
  have sin : Real.sin angle = w.y := by rw [← Complex.exp_ofReal_mul_I_im, h]; rfl
  rw [ellipsePoint_eq, cos, sin]

theorem onEllipse_ellipsePoint (hx : arc.radii.x ≠ 0) (hy : arc.radii.y ≠ 0) (angle : ℝ) :
    OnEllipse arc.center arc.radii arc.rotation (arc.ellipsePoint angle) := by
  have vector : arc.ellipsePoint angle - arc.center =
      fromAxes arc.rotation ⟨arc.radii.x * Real.cos angle, arc.radii.y * Real.sin angle⟩ := by
    rw [ellipsePoint_eq]
    simp only [Point.sub_def, Point.add_def, add_sub_cancel_right]
  rw [OnEllipse, vector, toAxes_fromAxes, mul_div_cancel_left₀ _ hx, mul_div_cancel_left₀ _ hy]
  exact Real.cos_sq_add_sin_sq angle

end Points

/-! ## Radii that were made to reach -/

section ReachingRadii

variable (radii half : Point ℝ)

theorem map_abs : radii.map Scalar.abs = ⟨|radii.x|, |radii.y|⟩ := by
  rw [Point.map, abs_eq, abs_eq]

theorem reachingRadii_eq :
    reachingRadii radii half =
      if 1 < stretch radii half then radii * √(stretch radii half) else radii := by
  have lambda : half.x * half.x / (radii.x * radii.x) + half.y * half.y / (radii.y * radii.y) =
      stretch radii half := by
    rw [stretch, div_pow, div_pow, pow_two, pow_two, pow_two, pow_two]
  rw [← lambda]
  rfl

theorem stretch_reachingRadii_le : stretch (reachingRadii radii half) half ≤ 1 := by
  rw [reachingRadii_eq]
  split
  · rename_i far
    have pos : 0 < stretch radii half := zero_lt_one.trans far
    rw [stretch_mul, Real.sq_sqrt pos.le, div_self pos.ne']
  · rename_i near
    exact not_lt.mp near

variable {radii}

theorem reachingRadii_ne_zero (hx : radii.x ≠ 0) (hy : radii.y ≠ 0) :
    (reachingRadii radii half).x ≠ 0 ∧ (reachingRadii radii half).y ≠ 0 := by
  rw [reachingRadii_eq]
  split
  · rename_i far
    have root := (Real.sqrt_pos.mpr (zero_lt_one.trans far)).ne'
    exact ⟨mul_ne_zero hx root, mul_ne_zero hy root⟩
  · exact ⟨hx, hy⟩

end ReachingRadii

/-! ## Solved arcs -/

/-- Radii without their signs. -/
noncomputable def Shape.absRadii (shape : Shape ℝ) : Point ℝ := ⟨|shape.radii.x|, |shape.radii.y|⟩

/-- What the arc between two points with a given shape has to be. -/
structure IsSolution (start finish : Point ℝ) (shape : Shape ℝ) (arc : Arc ℝ) : Prop where
  start_eq : arc.start = start
  finish_eq : arc.finish = finish
  rotation_eq : arc.rotation = Scalar.radians shape.rotation
  onEllipse_start : OnEllipse arc.center arc.radii arc.rotation start
  onEllipse_finish : OnEllipse arc.center arc.radii arc.rotation finish
  /-- Radii that reach are kept. -/
  radii_of_reaches : Reaches shape.absRadii arc.rotation start finish → arc.radii = shape.absRadii
  /-- Radii that do not are scaled by the least factor that makes them reach. -/
  radii_of_not_reaches : ¬ Reaches shape.absRadii arc.rotation start finish →
    ∃ k, IsLeast {k : ℝ | 0 < k ∧ Reaches (shape.absRadii * k) arc.rotation start finish} k ∧
      arc.radii = shape.absRadii * k ∧ arc.center = start.midpoint finish
  ellipsePoint_start : arc.ellipsePoint arc.startAngle = start
  ellipsePoint_finish : arc.ellipsePoint (arc.startAngle + arc.sweepAngle) = finish
  /-- The stored ends continue the samples between them. -/
  point_eq : ∀ t, 0 ≤ t → t ≤ 1 →
    arc.point t = arc.ellipsePoint (arc.startAngle + arc.sweepAngle * t)

section Solve

variable (start finish : Point ℝ) (shape : Shape ℝ)

/-- Half the chord of a solved arc in its axes. -/
noncomputable def solvedHalf : Point ℝ := halfOf (Scalar.radians shape.rotation) start finish

/-- The centre of a solved arc in its axes, relative to the middle of the chord. -/
noncomputable def solvedOffset : Point ℝ :=
  centerOffset (solve start finish shape).radii (solvedHalf start finish shape) shape.large
    shape.sweep

/-- The start of a solved arc as seen from its centre, in units of its radii. -/
noncomputable def startVector : Point ℝ :=
  ⟨((solvedHalf start finish shape).x - (solvedOffset start finish shape).x) /
      (solve start finish shape).radii.x,
    ((solvedHalf start finish shape).y - (solvedOffset start finish shape).y) /
      (solve start finish shape).radii.y⟩

noncomputable def finishVector : Point ℝ :=
  ⟨(-(solvedHalf start finish shape).x - (solvedOffset start finish shape).x) /
      (solve start finish shape).radii.x,
    (-(solvedHalf start finish shape).y - (solvedOffset start finish shape).y) /
      (solve start finish shape).radii.y⟩

theorem radii_solve :
    (solve start finish shape).radii =
      reachingRadii shape.absRadii (solvedHalf start finish shape) := by
  rw [Shape.absRadii, ← map_abs]
  rfl

theorem center_solve :
    (solve start finish shape).center =
      fromAxes (Scalar.radians shape.rotation) (solvedOffset start finish shape) +
        start.midpoint finish := rfl

theorem startAngle_solve :
    (solve start finish shape).startAngle =
      angleBetween ⟨1, 0⟩ (startVector start finish shape) := rfl

theorem sweepAngle_solve :
    (solve start finish shape).sweepAngle =
      directedSweep shape.sweep
        (angleBetween (startVector start finish shape) (finishVector start finish shape)) := rfl

variable {start finish shape} (hx : shape.radii.x ≠ 0) (hy : shape.radii.y ≠ 0)

include hx hy

theorem radii_solve_ne_zero :
    (solve start finish shape).radii.x ≠ 0 ∧ (solve start finish shape).radii.y ≠ 0 := by
  rw [radii_solve]
  exact reachingRadii_ne_zero _ (abs_ne_zero.mpr hx) (abs_ne_zero.mpr hy)

theorem onEllipse_solve {angle : ℝ} {p : Point ℝ}
    (eq : (solve start finish shape).ellipsePoint angle = p) :
    OnEllipse (solve start finish shape).center (solve start finish shape).radii
      (solve start finish shape).rotation p := by
  obtain ⟨rx, ry⟩ : (solve start finish shape).radii.x ≠ 0 ∧
    (solve start finish shape).radii.y ≠ 0 := radii_solve_ne_zero hx hy
  rw [← eq]
  exact onEllipse_ellipsePoint _ rx ry angle

theorem ellipsePoint_of_startVector {angle : ℝ}
    (exp : Complex.exp (angle * Complex.I) = (startVector start finish shape).toComplex) :
    (solve start finish shape).ellipsePoint angle = start := by
  obtain ⟨rx, ry⟩ : (solve start finish shape).radii.x ≠ 0 ∧
    (solve start finish shape).radii.y ≠ 0 := radii_solve_ne_zero hx hy
  rw [ellipsePoint_of_exp _ exp, startVector, mul_div_cancel₀ _ rx, mul_div_cancel₀ _ ry]
  exact fromAxes_add_center _ (toAxes_start_sub _ start finish _)

theorem ellipsePoint_of_finishVector {angle : ℝ}
    (exp : Complex.exp (angle * Complex.I) = (finishVector start finish shape).toComplex) :
    (solve start finish shape).ellipsePoint angle = finish := by
  obtain ⟨rx, ry⟩ : (solve start finish shape).radii.x ≠ 0 ∧
    (solve start finish shape).radii.y ≠ 0 := radii_solve_ne_zero hx hy
  rw [ellipsePoint_of_exp _ exp, finishVector, mul_div_cancel₀ _ rx, mul_div_cancel₀ _ ry]
  exact fromAxes_add_center _ (toAxes_finish_sub _ start finish _)

/-- When the radii are scaled the chord is a diameter. -/
theorem center_solve_of_stretch
    (far : 1 < stretch shape.absRadii (solvedHalf start finish shape)) :
    (solve start finish shape).center = start.midpoint finish := by
  obtain ⟨rx, ry⟩ : (solve start finish shape).radii.x ≠ 0 ∧
    (solve start finish shape).radii.y ≠ 0 := radii_solve_ne_zero hx hy
  have one : stretch (solve start finish shape).radii (solvedHalf start finish shape) = 1 := by
    have pos := zero_lt_one.trans far
    rw [radii_solve, reachingRadii_eq, if_pos far, stretch_mul, Real.sq_sqrt pos.le,
      div_self pos.ne']
  obtain ⟨coef, square, offset⟩ := exists_centerOffset_eq rx ry (one ▸ zero_lt_one) one.le
    shape.large shape.sweep
  have zero : coef = 0 := by
    rw [one, mul_one, sub_self] at square
    exact pow_eq_zero_iff two_ne_zero |>.mp square
  rw [center_solve, solvedOffset, offset, zero]
  simp [fromAxes, Point.add_def]

variable (h : start ≠ finish)

include h

theorem norm_vectors :
    ‖(startVector start finish shape).toComplex‖ = 1 ∧
      ‖(finishVector start finish shape).toComplex‖ = 1 := by
  obtain ⟨rx, ry⟩ : (solve start finish shape).radii.x ≠ 0 ∧
    (solve start finish shape).radii.y ≠ 0 := radii_solve_ne_zero hx hy
  have le : stretch (solve start finish shape).radii (solvedHalf start finish shape) ≤ 1 := by
    rw [radii_solve]
    exact stretch_reachingRadii_le _ _
  have ends := ends_of_centerOffset rx ry (stretch_pos _ start finish rx ry h) le shape.large
    shape.sweep
  constructor
  · rw [Point.norm_toComplex, Real.sqrt_eq_one]
    exact ends.1
  · rw [Point.norm_toComplex, Real.sqrt_eq_one]
    exact ends.2

theorem exp_startAngle :
    Complex.exp ((solve start finish shape).startAngle * Complex.I) =
      (startVector start finish shape).toComplex := by
  have one : (Point.toComplex ⟨1, 0⟩) = 1 := rfl
  rw [startAngle_solve, exp_angleBetween (by rw [one, norm_one]) (norm_vectors hx hy h).1, one,
    map_one, one_mul]

theorem exp_finishAngle :
    Complex.exp (((solve start finish shape).startAngle +
        (solve start finish shape).sweepAngle : ℝ) * Complex.I) =
      (finishVector start finish shape).toComplex := by
  obtain ⟨first, last⟩ := norm_vectors hx hy h
  rw [Complex.ofReal_add, add_mul, Complex.exp_add, exp_startAngle hx hy h, sweepAngle_solve,
    exp_directedSweep, exp_angleBetween first last, ← mul_assoc, Complex.mul_conj,
    Complex.normSq_eq_norm_sq, first, one_pow, Complex.ofReal_one, one_mul]

theorem isSolution_solve : IsSolution start finish shape (solve start finish shape) where
  start_eq := rfl
  finish_eq := rfl
  rotation_eq := rfl
  onEllipse_start :=
    onEllipse_solve hx hy (ellipsePoint_of_startVector hx hy (exp_startAngle hx hy h))
  onEllipse_finish :=
    onEllipse_solve hx hy (ellipsePoint_of_finishVector hx hy (exp_finishAngle hx hy h))
  radii_of_reaches reaches := by
    have near := (reaches_iff (abs_ne_zero.mpr hx) (abs_ne_zero.mpr hy) h _).mp reaches
    rw [radii_solve, reachingRadii_eq]
    exact if_neg (not_lt.mpr near)
  radii_of_not_reaches far := by
    rw [reaches_iff (abs_ne_zero.mpr hx) (abs_ne_zero.mpr hy) h, not_le] at far
    refine ⟨_, isLeast_reaches (abs_ne_zero.mpr hx) (abs_ne_zero.mpr hy) h _, ?_,
      center_solve_of_stretch hx hy far⟩
    rw [radii_solve, reachingRadii_eq]
    exact if_pos far
  ellipsePoint_start := ellipsePoint_of_startVector hx hy (exp_startAngle hx hy h)
  ellipsePoint_finish := ellipsePoint_of_finishVector hx hy (exp_finishAngle hx hy h)
  point_eq t h₀ h₁ := by
    show Transform.identity.apply _ = _
    rw [Transform.identity_apply]
    split
    · rename_i first
      rw [le_antisymm first h₀, mul_zero, add_zero,
        ellipsePoint_of_startVector hx hy (exp_startAngle hx hy h)]
      rfl
    · split
      · rename_i last
        rw [le_antisymm h₁ last, mul_one,
          ellipsePoint_of_finishVector hx hy (exp_finishAngle hx hy h)]
        rfl
      · rfl

end Solve

/-- Only points that are the same and radii of zero are special. -/
theorem ofArc?_eq_solve {start finish : Point ℝ} {shape : Shape ℝ} (h : start ≠ finish)
    (hx : shape.radii.x ≠ 0) (hy : shape.radii.y ≠ 0) :
    Curve.ofArc? start finish shape = some (.arc (solve start finish shape)) := by
  have curved : ¬ (Scalar.abs shape.radii.x == 0 || Scalar.abs shape.radii.y == 0) = true := by
    rw [Bool.or_eq_true, beq_iff, beq_iff, abs_eq, abs_eq, abs_eq_zero, abs_eq_zero, not_or]
    exact ⟨hx, hy⟩
  rw [Curve.ofArc?, if_neg (mt Point.same_iff.mp h), if_neg curved]

/-- The arc between two different points with radii that are not zero. -/
theorem ofArc?_isSolution {start finish : Point ℝ} {shape : Shape ℝ} (h : start ≠ finish)
    (hx : shape.radii.x ≠ 0) (hy : shape.radii.y ≠ 0) :
    ∃ arc, Curve.ofArc? start finish shape = some (.arc arc) ∧
      IsSolution start finish shape arc :=
  ⟨_, ofArc?_eq_solve h hx hy, isSolution_solve hx hy h⟩

/-- Radii of 1 and 2 that do not reach from one end to the other, on axes turned by 30 degrees. -/
theorem ofArc?_isSolution_short_radii :
    (⟨0, 0⟩ : Point ℝ) ≠ ⟨8, 0⟩ ∧ (1 : ℝ) ≠ 0 ∧ (-2 : ℝ) ≠ 0 ∧
      ∃ arc, Curve.ofArc? ⟨0, 0⟩ ⟨8, 0⟩ ⟨⟨1, -2⟩, 30, true, false⟩ = some (.arc arc) ∧
        IsSolution ⟨0, 0⟩ ⟨8, 0⟩ ⟨⟨1, -2⟩, 30, true, false⟩ arc := by
  have ends : (⟨0, 0⟩ : Point ℝ) ≠ ⟨8, 0⟩ := by norm_num
  have second : (-2 : ℝ) ≠ 0 := by norm_num
  exact ⟨ends, one_ne_zero, second, ofArc?_isSolution ends one_ne_zero second⟩

end LaserCut.Arc
