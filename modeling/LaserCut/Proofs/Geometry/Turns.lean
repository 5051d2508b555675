import LaserCut.Proofs.Geometry.Sweep

/-!
# Arcs from their own ends

In exact arithmetic. The ends of an arc are points of its ellipse, seen from the centre in two
directions. The arc that is solved from these ends, the radii and flags that fit is the arc itself.

* `Shape.pointAt`: the point of an ellipse in a direction;
* `solve_pointAt`: the arc between the points in two directions;
* `bijOn_pointAt_direction`: the points of an ellipse by their angles;
* `ofArc?_turn`: the arc from one angle on through a sweep is found again from its ends;
* `point_turn`: the samples of such an arc;
* `uprightTurn`: arcs on axes that are not turned.
-/

namespace LaserCut.Curve

variable {α : Type}

def arc? : Curve α → Option (Arc α)
  | .arc a => some a
  | _ => none

/-- The arcs among curves. -/
def arcs (cs : List (Curve α)) : List (Arc α) := cs.filterMap arc?

end LaserCut.Curve

namespace LaserCut.Arc

open Exact

/-! ## Directions -/

/-- A direction as a point of the unit circle. -/
def IsUnit (u : Point ℝ) : Prop := u.x ^ 2 + u.y ^ 2 = 1

def cross (u v : Point ℝ) : ℝ := u.x * v.y - u.y * v.x

def dot (u v : Point ℝ) : ℝ := u.x * v.x + u.y * v.y

/-- The point of an ellipse in a direction, in its axes and units of its radii. -/
noncomputable def atDirection (center radii : Point ℝ) (rotation : ℝ) (u : Point ℝ) : Point ℝ :=
  fromAxes rotation ⟨radii.x * u.x, radii.y * u.y⟩ + center

theorem toAxes_atDirection_sub (center radii : Point ℝ) (rotation : ℝ) (u : Point ℝ) :
    toAxes rotation (atDirection center radii rotation u - center) =
      ⟨radii.x * u.x, radii.y * u.y⟩ := by
  have vector : atDirection center radii rotation u - center =
      fromAxes rotation ⟨radii.x * u.x, radii.y * u.y⟩ := by
    simp only [atDirection, Point.sub_def, Point.add_def, add_sub_cancel_right]
  rw [vector, toAxes_fromAxes]

theorem atDirection_injective {radii : Point ℝ} (hx : radii.x ≠ 0) (hy : radii.y ≠ 0)
    (center : Point ℝ) (rotation : ℝ) :
    Function.Injective (atDirection center radii rotation) := by
  intro u v same
  have vectors := toAxes_atDirection_sub center radii rotation u
  rw [same, toAxes_atDirection_sub, Point.mk.injEq] at vectors
  obtain ⟨ux, uy⟩ := u
  obtain ⟨vx, vy⟩ := v
  rw [Point.mk.injEq]
  exact ⟨(mul_left_cancel₀ hx vectors.1).symm, (mul_left_cancel₀ hy vectors.2).symm⟩

section Chord

variable {u v : Point ℝ} (hu : IsUnit u) (hv : IsUnit v)

include hu hv

theorem cross_sq : cross u v ^ 2 = (1 - dot u v) * (1 + dot u v) := by
  unfold IsUnit at hu hv
  unfold cross dot
  linear_combination (v.x ^ 2 + v.y ^ 2) * hu + hv

theorem dot_lt_one (h : u ≠ v) : dot u v < 1 := by
  by_contra! le
  have chord : (u.x - v.x) ^ 2 + (u.y - v.y) ^ 2 = 2 * (1 - dot u v) := by
    unfold IsUnit at hu hv
    unfold dot
    linear_combination hu + hv
  have x : u.x - v.x = 0 := by
    refine pow_eq_zero_iff two_ne_zero |>.mp (le_antisymm ?_ (sq_nonneg _))
    linarith [sq_nonneg (u.y - v.y)]
  have y : u.y - v.y = 0 := by
    refine pow_eq_zero_iff two_ne_zero |>.mp (le_antisymm ?_ (sq_nonneg _))
    linarith [sq_nonneg (u.x - v.x)]
  apply h
  obtain ⟨ux, uy⟩ := u
  obtain ⟨vx, vy⟩ := v
  rw [Point.mk.injEq]
  exact ⟨sub_eq_zero.mp x, sub_eq_zero.mp y⟩

/-- Both directions from half their chord and how far the centre lies across it. -/
theorem directions_eq (h : u ≠ v) :
    let a := (u.x - v.x) / 2
    let b := (u.y - v.y) / 2
    let k := cross u v / (1 - dot u v)
    (a - k * b = u.x ∧ b + k * a = u.y) ∧ -a - k * b = v.x ∧ -b + k * a = v.y := by
  intro a b k
  have apart : 1 - dot u v ≠ 0 := (sub_pos.mpr (dot_lt_one hu hv h)).ne'
  have across : k * (1 - dot u v) = cross u v := div_mul_cancel₀ _ apart
  unfold IsUnit at hu hv
  refine ⟨⟨?_, ?_⟩, ?_, ?_⟩ <;> apply mul_right_cancel₀ apart <;> unfold dot cross at *
  · linear_combination -b * across + v.x / 2 * hu + u.x / 2 * hv
  · linear_combination a * across + v.y / 2 * hu + u.y / 2 * hv
  · linear_combination -b * across + v.x / 2 * hu + u.x / 2 * hv
  · linear_combination a * across + v.y / 2 * hu + u.y / 2 * hv

end Chord

/-! ## The arc between two directions -/

/-- The side of the chord on which the flags put the centre is the one it is on. -/
def FlagsFit (large sweep : Bool) (u v : Point ℝ) : Prop :=
  if large = sweep then cross u v ≤ 0 else 0 ≤ cross u v

/-- The point in a direction of the ellipse with the radii and rotation of a shape. -/
noncomputable def Shape.pointAt (shape : Shape ℝ) (center u : Point ℝ) : Point ℝ :=
  atDirection center shape.radii (Scalar.radians shape.rotation) u

section Ellipse

variable (shape : Shape ℝ) {center : Point ℝ} (hx : shape.radii.x ≠ 0) (hy : shape.radii.y ≠ 0)

include hx hy

theorem onEllipse_pointAt_iff {u : Point ℝ} :
    OnEllipse center shape.radii (Scalar.radians shape.rotation) (shape.pointAt center u) ↔
      IsUnit u := by
  rw [OnEllipse, Shape.pointAt, toAxes_atDirection_sub, mul_div_cancel_left₀ _ hx,
    mul_div_cancel_left₀ _ hy]
  rfl

/-- The points of an ellipse are its points in all directions. -/
theorem exists_pointAt {p : Point ℝ}
    (h : OnEllipse center shape.radii (Scalar.radians shape.rotation) p) :
    ∃ u, IsUnit u ∧ shape.pointAt center u = p := by
  let w := toAxes (Scalar.radians shape.rotation) (p - center)
  refine ⟨⟨w.x / shape.radii.x, w.y / shape.radii.y⟩, h, ?_⟩
  rw [Shape.pointAt, atDirection, mul_div_cancel₀ _ hx, mul_div_cancel₀ _ hy]
  exact fromAxes_add_center _ rfl

end Ellipse

section Solve

variable (center : Point ℝ) {u v : Point ℝ} {shape : Shape ℝ}
  (hx : 0 < shape.radii.x) (hy : 0 < shape.radii.y)

theorem solvedHalf_pointAt :
    solvedHalf (shape.pointAt center u) (shape.pointAt center v) shape =
      ⟨shape.radii.x * ((u.x - v.x) / 2), shape.radii.y * ((u.y - v.y) / 2)⟩ := by
  rw [solvedHalf, halfOf_eq_sub _ _ _ center, Shape.pointAt, Shape.pointAt, toAxes_atDirection_sub,
    toAxes_atDirection_sub, Point.mk.injEq]
  constructor <;> ring

include hx hy

theorem stretch_pointAt (hu : IsUnit u) (hv : IsUnit v) :
    stretch shape.radii (solvedHalf (shape.pointAt center u) (shape.pointAt center v) shape) =
      (1 - dot u v) / 2 := by
  rw [solvedHalf_pointAt, stretch, mul_div_cancel_left₀ _ hx.ne', mul_div_cancel_left₀ _ hy.ne']
  unfold IsUnit at hu hv
  unfold dot
  linear_combination (hu + hv) / 4

theorem radii_solve_pointAt (hu : IsUnit u) (hv : IsUnit v) :
    (solve (shape.pointAt center u) (shape.pointAt center v) shape).radii = shape.radii := by
  have kept : shape.absRadii = shape.radii := by
    rw [Shape.absRadii, abs_of_pos hx, abs_of_pos hy]
  have reach : ¬ 1 < (1 - dot u v) / 2 := by
    have := sq_nonneg (u.x + v.x)
    have := sq_nonneg (u.y + v.y)
    unfold IsUnit at hu hv
    unfold dot
    linarith
  rw [radii_solve, kept, reachingRadii_eq, stretch_pointAt center hx hy hu hv, if_neg reach]

variable (hu : IsUnit u) (hv : IsUnit v) (h : u ≠ v) (fit : FlagsFit shape.large shape.sweep u v)

include hu hv h

omit hu hv in
theorem pointAt_ne : shape.pointAt center u ≠ shape.pointAt center v :=
  fun same => h (atDirection_injective hx.ne' hy.ne' center _ same)

include fit

theorem solvedCrossing_pointAt :
    solvedCrossing (shape.pointAt center u) (shape.pointAt center v) shape =
      cross u v / (1 - dot u v) := by
  have pos : 0 < 1 - dot u v := sub_pos.mpr (dot_lt_one hu hv h)
  have square : (1 - (1 - dot u v) / 2) / ((1 - dot u v) / 2) =
      (cross u v / (1 - dot u v)) ^ 2 := by
    rw [div_pow, cross_sq hu hv]
    field_simp
    ring
  rw [solvedCrossing, radii_solve_pointAt center hx hy hu hv, crossing,
    stretch_pointAt center hx hy hu hv, square, Real.sqrt_sq_eq_abs]
  unfold FlagsFit at fit
  split
  · rename_i same
    rw [if_pos same] at fit
    rw [abs_of_nonpos (div_nonpos_of_nonpos_of_nonneg fit pos.le), neg_neg]
  · rename_i differ
    rw [if_neg differ] at fit
    rw [abs_of_nonneg (div_nonneg fit pos.le)]

theorem vectors_pointAt :
    startVector (shape.pointAt center u) (shape.pointAt center v) shape = u ∧
      finishVector (shape.pointAt center u) (shape.pointAt center v) shape = v := by
  obtain ⟨first, last⟩ := vectors_eq hx.ne' hy.ne' (pointAt_ne center hx hy h)
  obtain ⟨⟨ux, uy⟩, vx, vy⟩ := directions_eq hu hv h
  rw [solvedCrossing_pointAt center hx hy hu hv h fit, radii_solve_pointAt center hx hy hu hv,
    solvedHalf_pointAt, mul_div_cancel_left₀ _ hx.ne', mul_div_cancel_left₀ _ hy.ne'] at first last
  rw [first, last, ux, uy, vx, vy]
  exact ⟨rfl, rfl⟩

theorem center_solve_pointAt :
    (solve (shape.pointAt center u) (shape.pointAt center v) shape).center = center := by
  have ends := pointAt_ne center hx hy h
  have start : (solve (shape.pointAt center u) (shape.pointAt center v) shape).ellipsePoint _ = _ :=
    ellipsePoint_of_startVector hx.ne' hy.ne' (exp_startAngle hx.ne' hy.ne' ends)
  rw [ellipsePoint_of_exp _ (exp_startAngle hx.ne' hy.ne' ends),
    (vectors_pointAt center hx hy hu hv h fit).1, radii_solve_pointAt center hx hy hu hv] at start
  -- The start is seen in one direction from both centres.
  have both : fromAxes (Scalar.radians shape.rotation)
      ⟨shape.radii.x * u.x, shape.radii.y * u.y⟩ +
        (solve (shape.pointAt center u) (shape.pointAt center v) shape).center =
      fromAxes (Scalar.radians shape.rotation)
        ⟨shape.radii.x * u.x, shape.radii.y * u.y⟩ + center := start
  simp only [Point.add_def, Point.mk.injEq, add_right_inj] at both
  generalize (solve (shape.pointAt center u) (shape.pointAt center v) shape).center = other at both
  obtain ⟨x, y⟩ := other
  obtain ⟨rfl, rfl⟩ := both
  rfl

/-- The arc between the points in two directions has the centre they are seen from, the radii of the
shape, and the angle between the directions as its sweep. -/
theorem solve_pointAt :
    solve (shape.pointAt center u) (shape.pointAt center v) shape =
      { start := shape.pointAt center u
        finish := shape.pointAt center v
        center
        radii := shape.radii
        rotation := Scalar.radians shape.rotation
        startAngle := angleBetween ⟨1, 0⟩ u
        sweepAngle := directedSweep shape.sweep (angleBetween u v)
        transform := Transform.identity } := by
  obtain ⟨first, last⟩ := vectors_pointAt center hx hy hu hv h fit
  have seen := center_solve_pointAt center hx hy hu hv h fit
  have radii := radii_solve_pointAt center hx hy hu hv
  have startAngle := startAngle_solve (shape.pointAt center u) (shape.pointAt center v) shape
  have sweepAngle := sweepAngle_solve (shape.pointAt center u) (shape.pointAt center v) shape
  rw [first] at startAngle
  rw [first, last] at sweepAngle
  calc
    solve (shape.pointAt center u) (shape.pointAt center v) shape
    _ = ⟨shape.pointAt center u, shape.pointAt center v,
          (solve (shape.pointAt center u) (shape.pointAt center v) shape).center,
          (solve (shape.pointAt center u) (shape.pointAt center v) shape).radii,
          Scalar.radians shape.rotation,
          (solve (shape.pointAt center u) (shape.pointAt center v) shape).startAngle,
          (solve (shape.pointAt center u) (shape.pointAt center v) shape).sweepAngle,
          Transform.identity⟩ := rfl
    _ = _ := by rw [seen, radii, startAngle, sweepAngle]

end Solve

/-! ## Turns -/

noncomputable def direction (angle : ℝ) : Point ℝ := ⟨Real.cos angle, Real.sin angle⟩

theorem isUnit_direction (angle : ℝ) : IsUnit (direction angle) := Real.cos_sq_add_sin_sq angle

theorem cross_direction (angle sweep : ℝ) :
    cross (direction angle) (direction (angle + sweep)) = Real.sin sweep := by
  have difference := Real.sin_sub (angle + sweep) angle
  rw [add_sub_cancel_left] at difference
  rw [difference, cross, direction, direction]
  ring

theorem dot_direction (angle sweep : ℝ) :
    dot (direction angle) (direction (angle + sweep)) = Real.cos sweep := by
  have difference := Real.cos_sub (angle + sweep) angle
  rw [add_sub_cancel_left] at difference
  rw [difference, dot, direction, direction]
  ring

/-- Angles less than a turn apart have different directions. -/
theorem eq_zero_of_direction_eq (angle : ℝ) {sweep : ℝ} (low : -(2 * Real.pi) < sweep)
    (high : sweep < 2 * Real.pi) (same : direction angle = direction (angle + sweep)) :
    sweep = 0 := by
  have one : Real.cos sweep = 1 := by
    rw [← dot_direction angle, ← same, dot, ← sq, ← sq]
    exact isUnit_direction angle
  exact (Real.cos_eq_one_iff_of_lt_of_lt low high).mp one

theorem exists_direction {u : Point ℝ} (h : IsUnit u) : ∃ angle, direction angle = u := by
  have norm : ‖u.toComplex‖ = 1 := by
    rw [Point.norm_toComplex, h, Real.sqrt_one]
  have exp := Complex.norm_mul_exp_arg_mul_I u.toComplex
  rw [norm, Complex.ofReal_one, one_mul] at exp
  refine ⟨u.toComplex.arg, ?_⟩
  rw [direction, ← Complex.exp_ofReal_mul_I_re, ← Complex.exp_ofReal_mul_I_im, exp]
  rfl

/-- Every direction has an angle in the first turn. -/
theorem exists_direction_mem {u : Point ℝ} (h : IsUnit u) :
    ∃ angle ∈ Set.Ico 0 (2 * Real.pi), direction angle = u := by
  obtain ⟨angle, rfl⟩ := exists_direction h
  have mem := toIcoMod_mem_Ico Real.two_pi_pos 0 angle
  rw [zero_add] at mem
  refine ⟨_, mem, ?_⟩
  rw [toIcoMod, zsmul_eq_mul, direction, direction, Real.cos_sub_int_mul_two_pi,
    Real.sin_sub_int_mul_two_pi]

theorem injOn_direction : Set.InjOn direction (Set.Ico 0 (2 * Real.pi)) := by
  intro first range other range' same
  have none : other - first = 0 :=
    eq_zero_of_direction_eq first (by linarith [range.2, range'.1])
      (by linarith [range.1, range'.2]) (by rw [add_sub_cancel, same])
  exact (sub_eq_zero.mp none).symm

theorem atan2_sin_cos {angle : ℝ} (h : angle ∈ Set.Ioc (-Real.pi) Real.pi) :
    Scalar.atan2 (Real.sin angle) (Real.cos angle) = angle := by
  have arg := Complex.arg_cos_add_sin_mul_I h
  rw [← Complex.ofReal_cos, ← Complex.ofReal_sin, ← Complex.mk_eq_add_mul_I] at arg
  exact arg

theorem angleBetween_direction (angle sweep : ℝ) :
    angleBetween (direction angle) (direction (angle + sweep)) =
      Scalar.atan2 (Real.sin sweep) (Real.cos sweep) := by
  rw [← cross_direction angle, ← dot_direction angle]
  rfl

/-- The angle of a direction from the first axis. -/
theorem angleBetween_axis {angle : ℝ} (h : angle ∈ Set.Ioc (-Real.pi) Real.pi) :
    angleBetween ⟨1, 0⟩ (direction angle) = angle := by
  have axis : (⟨1, 0⟩ : Point ℝ) = direction 0 := by
    rw [direction, Real.cos_zero, Real.sin_zero]
  rw [axis, ← zero_add angle, angleBetween_direction, zero_add, atan2_sin_cos h]

/-- The points of an ellipse have one angle each in the first turn. -/
theorem bijOn_pointAt_direction (shape : Shape ℝ) (center : Point ℝ) (hx : shape.radii.x ≠ 0)
    (hy : shape.radii.y ≠ 0) :
    Set.BijOn (fun angle => shape.pointAt center (direction angle)) (Set.Ico 0 (2 * Real.pi))
      {p | OnEllipse center shape.radii (Scalar.radians shape.rotation) p} := by
  refine ⟨fun angle _ => (onEllipse_pointAt_iff shape hx hy).mpr (isUnit_direction angle), ?_, ?_⟩
  · exact (atDirection_injective hx hy center _).comp_injOn injOn_direction
  · intro p h
    obtain ⟨u, unit, rfl⟩ := exists_pointAt shape hx hy h
    obtain ⟨angle, mem, rfl⟩ := exists_direction_mem unit
    exact ⟨angle, mem, rfl⟩

/-- The flag for the longer way fits a sweep: half a turn goes either way. -/
inductive FitsSweep (sweep : ℝ) : Bool → Prop
  | short (pos : 0 < sweep) (le : sweep ≤ Real.pi) : FitsSweep sweep false
  | long (le : Real.pi ≤ sweep) (lt : sweep < 2 * Real.pi) : FitsSweep sweep true

section Turn

variable {large : Bool} {sweep : ℝ} (fits : FitsSweep sweep large)

include fits

theorem FitsSweep.bounds : 0 < sweep ∧ sweep < 2 * Real.pi := by
  have pi := Real.pi_pos
  cases fits with
  | short pos le => exact ⟨pos, by linarith⟩
  | long le lt => exact ⟨by linarith, lt⟩

theorem directedSweep_turn :
    directedSweep true (Scalar.atan2 (Real.sin sweep) (Real.cos sweep)) = sweep := by
  obtain ⟨pos, lt⟩ := fits.bounds
  rcases le_or_gt sweep Real.pi with short | long
  · rw [atan2_sin_cos ⟨by linarith, short⟩, directedSweep_of_pos _ pos, if_pos rfl]
  · -- Past half a turn the angle between the ends is measured the other way round.
    have back : Scalar.atan2 (Real.sin sweep) (Real.cos sweep) = sweep - 2 * Real.pi := by
      rw [← Real.sin_sub_two_pi, ← Real.cos_sub_two_pi]
      exact atan2_sin_cos ⟨by linarith, by linarith⟩
    rw [back, directedSweep_of_neg _ (sub_neg.mpr lt), if_pos rfl, sub_add_cancel]

theorem flagsFit_direction (angle : ℝ) :
    FlagsFit large true (direction angle) (direction (angle + sweep)) := by
  rw [FlagsFit, cross_direction]
  cases fits with
  | short pos le => exact Real.sin_nonneg_of_nonneg_of_le_pi pos.le le
  | long le lt =>
    rw [if_pos rfl, ← Real.sin_sub_two_pi]
    exact Real.sin_nonpos_of_nonpos_of_neg_pi_le (by linarith) (by linarith)

theorem direction_ne (angle : ℝ) : direction angle ≠ direction (angle + sweep) := by
  obtain ⟨pos, lt⟩ := fits.bounds
  exact fun same => pos.ne' (eq_zero_of_direction_eq angle (by linarith) lt same)

end Turn

section SolveTurn

variable {center : Point ℝ} {shape : Shape ℝ} {angle sweep : ℝ}
  (hx : 0 < shape.radii.x) (hy : 0 < shape.radii.y) (forward : shape.sweep = true)
  (mem : angle ∈ Set.Ioc (-Real.pi) Real.pi) (fits : FitsSweep sweep shape.large)

/-- The arc of an ellipse from one angle on through a sweep. -/
noncomputable def Shape.turn (shape : Shape ℝ) (center : Point ℝ) (angle sweep : ℝ) : Arc ℝ where
  start := shape.pointAt center (direction angle)
  finish := shape.pointAt center (direction (angle + sweep))
  center
  radii := shape.radii
  rotation := Scalar.radians shape.rotation
  startAngle := angle
  sweepAngle := sweep
  transform := Transform.identity

/-- The samples of the arc are the points at the angles of its sweep. -/
theorem point_turn {t : ℝ} (h₀ : 0 ≤ t) (h₁ : t ≤ 1) :
    (shape.turn center angle sweep).point t =
      shape.pointAt center (direction (angle + sweep * t)) := by
  unfold point
  split
  · rename_i first
    rw [le_antisymm first h₀, mul_zero, add_zero]
    exact Transform.identity_apply _
  · split
    · rename_i last
      rw [le_antisymm h₁ last, mul_one]
      exact Transform.identity_apply _
    · exact Transform.identity_apply _

include hx hy forward mem fits

theorem solve_turn :
    solve (shape.pointAt center (direction angle))
      (shape.pointAt center (direction (angle + sweep))) shape = shape.turn center angle sweep := by
  have fit : FlagsFit shape.large shape.sweep (direction angle) (direction (angle + sweep)) := by
    rw [forward]
    exact flagsFit_direction fits angle
  have ends := direction_ne fits angle
  rw [solve_pointAt center hx hy (isUnit_direction _) (isUnit_direction _) ends fit,
    angleBetween_axis mem, angleBetween_direction, forward, directedSweep_turn fits]
  rfl

/-- An arc is found again from its ends, its radii and the flags that fit its sweep. -/
theorem ofArc?_turn :
    Curve.ofArc? (shape.pointAt center (direction angle))
      (shape.pointAt center (direction (angle + sweep))) shape =
        some (.arc (shape.turn center angle sweep)) := by
  rw [ofArc?_eq_solve (pointAt_ne center hx hy (direction_ne fits angle)) hx.ne' hy.ne',
    solve_turn hx hy forward mem fits]

end SolveTurn

/-! ## Axes that are not turned -/

section Upright

variable (center radii : Point ℝ) (large sweep : Bool)

/-- The shape of an arc on axes that are not turned. -/
def upright (radii : Point ℝ) (large sweep : Bool) : Shape ℝ := ⟨radii, 0, large, sweep⟩

theorem radians_zero : Scalar.radians (0 : ℝ) = 0 := zero_mul _

theorem pointAt_upright (angle : ℝ) :
    (upright radii large sweep).pointAt center (direction angle) =
      ⟨radii.x * Real.cos angle + center.x, radii.y * Real.sin angle + center.y⟩ := by
  rw [Shape.pointAt, atDirection, upright, radians_zero]
  simp only [fromAxes, direction, Point.add_def, Real.cos_zero, Real.sin_zero, one_mul, zero_mul,
    sub_zero, zero_add]

@[simp] theorem pointAt_upright_zero :
    (upright radii large sweep).pointAt center (direction 0) =
      ⟨center.x + radii.x, center.y⟩ := by
  rw [pointAt_upright, Real.cos_zero, Real.sin_zero, mul_one, mul_zero, zero_add, add_comm]

@[simp] theorem pointAt_upright_half_pi :
    (upright radii large sweep).pointAt center (direction (Real.pi / 2)) =
      ⟨center.x, center.y + radii.y⟩ := by
  rw [pointAt_upright, Real.cos_pi_div_two, Real.sin_pi_div_two, mul_one, mul_zero, zero_add,
    add_comm]

@[simp] theorem pointAt_upright_pi :
    (upright radii large sweep).pointAt center (direction Real.pi) =
      ⟨center.x - radii.x, center.y⟩ := by
  rw [pointAt_upright, Real.cos_pi, Real.sin_pi, mul_neg_one, mul_zero, zero_add, neg_add_eq_sub]

@[simp] theorem pointAt_upright_neg_half_pi :
    (upright radii large sweep).pointAt center (direction (-(Real.pi / 2))) =
      ⟨center.x, center.y - radii.y⟩ := by
  rw [pointAt_upright, Real.cos_neg, Real.sin_neg, Real.cos_pi_div_two, Real.sin_pi_div_two,
    mul_neg_one, mul_zero, zero_add, neg_add_eq_sub]

@[simp] theorem direction_pi_add_half_pi :
    direction (Real.pi + Real.pi / 2) = direction (-(Real.pi / 2)) := by
  have turn : Real.pi + Real.pi / 2 = -(Real.pi / 2) + 2 * Real.pi := by ring
  rw [turn, direction, Real.cos_add_two_pi, Real.sin_add_two_pi, direction]

@[simp] theorem direction_pi_add_pi : direction (Real.pi + Real.pi) = direction 0 := by
  rw [← two_mul, direction, Real.cos_two_pi, Real.sin_two_pi, direction, Real.cos_zero,
    Real.sin_zero]

end Upright

/-- The arc runs through a sweep on axes that are not turned, with the given radii, and is not
mapped. -/
structure IsUpright {α : Type} [Scalar α] (radii : Point α) (sweep : α) (a : Arc α) : Prop where
  radii_eq : a.radii = radii
  rotation_eq : a.rotation = 0
  sweepAngle_eq : a.sweepAngle = sweep
  transform_eq : a.transform = Transform.identity

section Arcs

variable (center radii : Point ℝ) (large : Bool) (angle sweep : ℝ)

/-- The part of an ellipse from an angle on, in the direction of positive angles. -/
noncomputable def uprightTurn : Arc ℝ := (upright radii large true).turn center angle sweep

noncomputable abbrev quarterTurn : Arc ℝ := uprightTurn center radii false angle rightAngle

noncomputable abbrev halfTurn : Arc ℝ := uprightTurn center radii true angle Real.pi

theorem isUpright_uprightTurn :
    IsUpright radii sweep (uprightTurn center radii large angle sweep) :=
  ⟨rfl, radians_zero, rfl, rfl⟩

@[simp] theorem start_uprightTurn :
    (uprightTurn center radii large angle sweep).start =
      (upright radii large true).pointAt center (direction angle) := rfl

@[simp] theorem finish_uprightTurn :
    (uprightTurn center radii large angle sweep).finish =
      (upright radii large true).pointAt center (direction (angle + sweep)) := rfl

@[simp] theorem transform_uprightTurn :
    (uprightTurn center radii large angle sweep).transform = Transform.identity := rfl

theorem point_uprightTurn (t : ℝ) :
    (Curve.arc (uprightTurn center radii large angle sweep)).point t =
      (upright radii large true).pointAt center
        (direction (angle + sweep * Scalar.clampUnit t)) :=
  point_turn (clampUnit_mem t).1 (clampUnit_mem t).2

variable {radii} (hx : 0 < radii.x) (hy : 0 < radii.y)

include hx hy

theorem onEllipse_uprightTurn (t : ℝ) :
    OnEllipse center radii 0
      ((Curve.arc (uprightTurn center radii large angle sweep)).point t) := by
  rw [point_uprightTurn, ← radians_zero]
  exact (onEllipse_pointAt_iff (upright radii large true) hx.ne' hy.ne').mpr
    (isUnit_direction _)

variable {large angle sweep}

/-- An arc between the ends of a turn is the turn. -/
theorem ofArc?_uprightTurn (mem : angle ∈ Set.Ioc (-Real.pi) Real.pi)
    (fits : FitsSweep sweep large) {start finish : Point ℝ}
    (first : (uprightTurn center radii large angle sweep).start = start)
    (last : (uprightTurn center radii large angle sweep).finish = finish) :
    Curve.ofArc? start finish (upright radii large true) =
      some (.arc (uprightTurn center radii large angle sweep)) := by
  rw [← first, ← last]
  exact ofArc?_turn hx hy rfl mem fits

end Arcs

theorem fitsSweep_quarter : FitsSweep rightAngle false :=
  .short (half_pos Real.pi_pos) (half_le_self Real.pi_pos.le)

theorem fitsSweep_half : FitsSweep Real.pi true :=
  .long le_rfl (by linarith [Real.pi_pos])

end LaserCut.Arc
