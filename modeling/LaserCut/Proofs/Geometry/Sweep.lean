import LaserCut.Proofs.Geometry.Ellipse

/-!
# Sweeps of arcs

In exact arithmetic. Of the four arcs of an ellipse that join two points, the flags choose one: by
the sign of its sweep and by whether the sweep is more than half a turn.

* `crossing`: how far the centre lies across the chord, and on which side;
* `cross_vectors`, `dot_vectors`: the ends as seen from the centre span an angle whose sign is that
  of `crossing`, or half a turn if the chord is a diameter;
* `ofArc?_obeysFlags`: the sweep of a solved arc obeys the flags.
-/

namespace LaserCut.Arc

open Exact

/-! ## Angles of vectors -/

section Atan2

variable {x y : ℝ}

theorem atan2_of_pos (h : 0 < y) : 0 < Scalar.atan2 y x ∧ Scalar.atan2 y x < Real.pi := by
  have nonneg : 0 ≤ Complex.arg ⟨x, y⟩ := Complex.arg_nonneg_iff.mpr h.le
  have ne : Complex.arg ⟨x, y⟩ ≠ 0 := fun zero => h.ne' (Complex.arg_eq_zero_iff.mp zero).2
  exact ⟨nonneg.lt_of_ne' ne, Complex.arg_lt_pi_iff.mpr (.inr h.ne')⟩

theorem atan2_of_neg (h : y < 0) : -Real.pi < Scalar.atan2 y x ∧ Scalar.atan2 y x < 0 :=
  ⟨Complex.neg_pi_lt_arg _, Complex.arg_neg_iff.mpr h⟩

theorem atan2_zero (h : x < 0) : Scalar.atan2 0 x = Real.pi :=
  Complex.arg_eq_pi_iff.mpr ⟨h, rfl⟩

end Atan2

section DirectedSweep

variable (sweep : Bool) {angle : ℝ}

theorem directedSweep_of_pos (h : 0 < angle) :
    directedSweep sweep angle = if sweep then angle else angle - 2 * Real.pi := by
  rw [directedSweep, two_eq, decide_eq_true h, decide_eq_false h.not_gt]
  rcases sweep with _ | _ <;> rfl

theorem directedSweep_of_neg (h : angle < 0) :
    directedSweep sweep angle = if sweep then angle + 2 * Real.pi else angle := by
  rw [directedSweep, two_eq, decide_eq_true h, decide_eq_false h.not_gt]
  rcases sweep with _ | _ <;> rfl

end DirectedSweep

/-! ## The side of the centre -/

section Crossing

variable {radii half : Point ℝ} (large sweep : Bool)

theorem crossing_of_lt (pos : 0 < stretch radii half) (lt : stretch radii half < 1) :
    if large = sweep then crossing radii half large sweep < 0
      else 0 < crossing radii half large sweep := by
  have root : 0 < √((1 - stretch radii half) / stretch radii half) :=
    Real.sqrt_pos.mpr (div_pos (sub_pos.mpr lt) pos)
  rw [crossing]
  split
  · exact neg_lt_zero.mpr root
  · exact root

theorem crossing_of_eq_one (one : stretch radii half = 1) :
    crossing radii half large sweep = 0 := by
  rw [crossing, one, sub_self, zero_div, Real.sqrt_zero, neg_zero, ite_self]

end Crossing

section Vectors

variable {start finish : Point ℝ} {shape : Shape ℝ} (hx : shape.radii.x ≠ 0)
  (hy : shape.radii.y ≠ 0) (h : start ≠ finish)

/-- The square of half the chord of a solved arc in units of its radii. -/
noncomputable def solvedStretch (start finish : Point ℝ) (shape : Shape ℝ) : ℝ :=
  stretch (solve start finish shape).radii (solvedHalf start finish shape)

/-- The crossing of a solved arc. -/
noncomputable def solvedCrossing (start finish : Point ℝ) (shape : Shape ℝ) : ℝ :=
  crossing (solve start finish shape).radii (solvedHalf start finish shape) shape.large shape.sweep

theorem solvedStretch_eq_min :
    solvedStretch start finish shape =
      min (stretch shape.absRadii (solvedHalf start finish shape)) 1 := by
  rw [solvedStretch, radii_solve, reachingRadii_eq]
  split
  · rename_i far
    have pos := zero_lt_one.trans far
    rw [stretch_mul, Real.sq_sqrt pos.le, div_self pos.ne', min_eq_right far.le]
  · rename_i near
    exact (min_eq_left (not_lt.mp near)).symm

include hx hy h

theorem solvedStretch_pos : 0 < solvedStretch start finish shape := by
  obtain ⟨rx, ry⟩ : (solve start finish shape).radii.x ≠ 0 ∧
    (solve start finish shape).radii.y ≠ 0 := radii_solve_ne_zero hx hy
  exact stretch_pos _ start finish rx ry h

/-- The ends of a solved arc as seen from its centre, in units of its radii and by its crossing. -/
theorem vectors_eq :
    let a := (solvedHalf start finish shape).x / (solve start finish shape).radii.x
    let b := (solvedHalf start finish shape).y / (solve start finish shape).radii.y
    let k := solvedCrossing start finish shape
    startVector start finish shape = ⟨a - k * b, b + k * a⟩ ∧
      finishVector start finish shape = ⟨-a - k * b, -b + k * a⟩ := by
  obtain ⟨rx, ry⟩ : (solve start finish shape).radii.x ≠ 0 ∧
    (solve start finish shape).radii.y ≠ 0 := radii_solve_ne_zero hx hy
  have le : solvedStretch start finish shape ≤ 1 := by
    rw [solvedStretch_eq_min]
    exact min_le_right _ _
  have offset : solvedOffset start finish shape = _ :=
    centerOffset_eq rx ry (solvedStretch_pos hx hy h) le shape.large shape.sweep
  simp only [startVector, finishVector, offset, solvedCrossing, Point.mk.injEq]
  refine ⟨⟨?_, ?_⟩, ?_, ?_⟩ <;> field_simp <;> ring

/-- The cross product of the ends as seen from the centre. -/
theorem cross_vectors :
    (startVector start finish shape).x * (finishVector start finish shape).y -
        (startVector start finish shape).y * (finishVector start finish shape).x =
      2 * solvedCrossing start finish shape * solvedStretch start finish shape := by
  obtain ⟨first, last⟩ := vectors_eq hx hy h
  rw [first, last, solvedStretch, stretch]
  ring

/-- Their scalar product. -/
theorem dot_vectors :
    (startVector start finish shape).x * (finishVector start finish shape).x +
        (startVector start finish shape).y * (finishVector start finish shape).y =
      (solvedCrossing start finish shape ^ 2 - 1) * solvedStretch start finish shape := by
  obtain ⟨first, last⟩ := vectors_eq hx hy h
  rw [first, last, solvedStretch, stretch]
  ring

theorem angleBetween_vectors :
    angleBetween (startVector start finish shape) (finishVector start finish shape) =
      Scalar.atan2 (2 * solvedCrossing start finish shape * solvedStretch start finish shape)
        ((solvedCrossing start finish shape ^ 2 - 1) * solvedStretch start finish shape) := by
  rw [← cross_vectors hx hy h, ← dot_vectors hx hy h]
  rfl

end Vectors

/-! ## The sweep -/

/-- Some ellipse with the same rotation and smaller radii goes through both points. -/
def ReachesWithRoom (radii : Point ℝ) (rotation : ℝ) (start finish : Point ℝ) : Prop :=
  ∃ k : ℝ, 0 < k ∧ k < 1 ∧ Reaches (radii * k) rotation start finish

theorem reachesWithRoom_iff {radii : Point ℝ} (hx : radii.x ≠ 0) (hy : radii.y ≠ 0)
    {start finish : Point ℝ} (h : start ≠ finish) (rotation : ℝ) :
    ReachesWithRoom radii rotation start finish ↔
      stretch radii (halfOf rotation start finish) < 1 := by
  have least := isLeast_reaches hx hy h rotation
  have one : √(stretch radii (halfOf rotation start finish)) < 1 ↔
      stretch radii (halfOf rotation start finish) < 1 := by
    rw [Real.sqrt_lt' one_pos, one_pow]
  rw [← one]
  constructor
  · rintro ⟨k, pos, lt, reaches⟩
    exact (least.2 ⟨pos, reaches⟩).trans_lt lt
  · intro lt
    exact ⟨_, least.1.1, lt, least.1.2⟩

/-- What the flags of an arc ask of its sweep. -/
structure ObeysFlags (start finish : Point ℝ) (shape : Shape ℝ) (arc : Arc ℝ) : Prop where
  sweep_iff : 0 < arc.sweepAngle ↔ shape.sweep = true
  pos : 0 < |arc.sweepAngle|
  lt_two_pi : |arc.sweepAngle| < 2 * Real.pi
  /-- Radii with room leave the choice between the shorter way and the longer one. -/
  large_iff : ReachesWithRoom shape.absRadii (Scalar.radians shape.rotation) start finish →
    (Real.pi < |arc.sweepAngle| ↔ shape.large = true)
  /-- Radii without room leave only half a turn, whatever the flag for the longer way. -/
  half_turn : ¬ ReachesWithRoom shape.absRadii (Scalar.radians shape.rotation) start finish →
    |arc.sweepAngle| = Real.pi

section Sweep

variable {start finish : Point ℝ} {shape : Shape ℝ}

/-- The flag for the direction gives the sweep its sign, and nothing else does. -/
theorem obeysFlags_of_eq {arc : Arc ℝ} {angle : ℝ} (pos : 0 < angle) (lt : angle < 2 * Real.pi)
    (eq : arc.sweepAngle = if shape.sweep then angle else -angle)
    (large : ReachesWithRoom shape.absRadii (Scalar.radians shape.rotation) start finish →
      (Real.pi < angle ↔ shape.large = true))
    (half : ¬ ReachesWithRoom shape.absRadii (Scalar.radians shape.rotation) start finish →
      angle = Real.pi) : ObeysFlags start finish shape arc := by
  have abs : |arc.sweepAngle| = angle := by
    rw [eq]
    split
    · exact abs_of_pos pos
    · rw [abs_neg, abs_of_pos pos]
  refine ⟨?_, ?_, ?_, ?_, ?_⟩
  · rw [eq]
    split
    · rename_i sweep
      exact iff_of_true pos sweep
    · rename_i against
      exact iff_of_false (neg_lt_zero.mpr pos).not_gt against
  · rw [abs]
    exact pos
  · rw [abs]
    exact lt
  · rw [abs]
    exact large
  · rw [abs]
    exact half

variable (hx : shape.radii.x ≠ 0)
  (hy : shape.radii.y ≠ 0) (h : start ≠ finish)

include hx hy h

/-- Without room the chord is a diameter. -/
theorem sweepAngle_solve_of_stretch
    (far : 1 ≤ stretch shape.absRadii (solvedHalf start finish shape)) :
    (solve start finish shape).sweepAngle = if shape.sweep then Real.pi else -Real.pi := by
  have one : solvedStretch start finish shape = 1 := by
    rw [solvedStretch_eq_min, min_eq_right far]
  have zero : solvedCrossing start finish shape = 0 := crossing_of_eq_one _ _ one
  have angle : angleBetween (startVector start finish shape) (finishVector start finish shape) =
      Real.pi := by
    rw [angleBetween_vectors hx hy h, zero, one, mul_zero, zero_mul]
    exact atan2_zero (by norm_num)
  rw [sweepAngle_solve, angle, directedSweep_of_pos _ Real.pi_pos]
  congr 1
  ring

/-- With room the centre is on the side that makes the way short or long as asked for. -/
theorem exists_sweepAngle_solve
    (near : stretch shape.absRadii (solvedHalf start finish shape) < 1) :
    ∃ angle, (solve start finish shape).sweepAngle = (if shape.sweep then angle else -angle) ∧
      angle ∈ if shape.large then Set.Ioo Real.pi (2 * Real.pi) else Set.Ioo 0 Real.pi := by
  have pos := solvedStretch_pos hx hy h
  have lt : solvedStretch start finish shape < 1 := by
    rw [solvedStretch_eq_min]
    exact min_lt_of_left_lt near
  have side : if shape.large = shape.sweep then solvedCrossing start finish shape < 0
      else 0 < solvedCrossing start finish shape := crossing_of_lt shape.large shape.sweep pos lt
  rw [sweepAngle_solve, angleBetween_vectors hx hy h]
  split at side
  · rename_i same
    obtain ⟨low, high⟩ := atan2_of_neg
      (x := (solvedCrossing start finish shape ^ 2 - 1) * solvedStretch start finish shape)
      (mul_neg_of_neg_of_pos (mul_neg_of_pos_of_neg two_pos side) pos)
    rw [directedSweep_of_neg _ high, same]
    generalize Scalar.atan2 (_ : ℝ) _ = angle at low high ⊢
    rcases shape.sweep with _ | _
    · exact ⟨-angle, (neg_neg angle).symm, neg_pos.mpr high, neg_lt.mp low⟩
    · exact ⟨angle + 2 * Real.pi, rfl, by linarith, by linarith⟩
  · rename_i differ
    obtain ⟨low, high⟩ := atan2_of_pos
      (x := (solvedCrossing start finish shape ^ 2 - 1) * solvedStretch start finish shape)
      (mul_pos (mul_pos two_pos side) pos)
    rw [directedSweep_of_pos _ low, Bool.eq_not.mpr differ]
    generalize Scalar.atan2 (_ : ℝ) _ = angle at low high ⊢
    rcases shape.sweep with _ | _
    · exact ⟨2 * Real.pi - angle, (neg_sub _ _).symm, by linarith, by linarith⟩
    · exact ⟨angle, rfl, low, high⟩

theorem obeysFlags_solve : ObeysFlags start finish shape (solve start finish shape) := by
  have pi := Real.pi_pos
  have room : ReachesWithRoom shape.absRadii (Scalar.radians shape.rotation) start finish ↔
      stretch shape.absRadii (solvedHalf start finish shape) < 1 :=
    reachesWithRoom_iff (abs_ne_zero.mpr hx) (abs_ne_zero.mpr hy) h _
  rcases lt_or_ge (stretch shape.absRadii (solvedHalf start finish shape)) 1 with near | far
  · obtain ⟨angle, eq, mem⟩ := exists_sweepAngle_solve hx hy h near
    have bounds : 0 < angle ∧ angle < 2 * Real.pi ∧ (Real.pi < angle ↔ shape.large = true) := by
      split at mem
      · rename_i large
        exact ⟨pi.trans mem.1, mem.2, iff_of_true mem.1 large⟩
      · rename_i small
        exact ⟨mem.1, by linarith [mem.2], iff_of_false mem.2.not_gt small⟩
    exact obeysFlags_of_eq bounds.1 bounds.2.1 eq (fun _ => bounds.2.2)
      fun tight => absurd (room.mpr near) tight
  · exact obeysFlags_of_eq pi (by linarith) (sweepAngle_solve_of_stretch hx hy h far)
      (fun reaches => absurd (room.mp reaches) far.not_gt) fun _ => rfl

end Sweep

/-- The arc between two different points with radii that are not zero goes the way its flags say. -/
theorem ofArc?_obeysFlags {start finish : Point ℝ} {shape : Shape ℝ} (h : start ≠ finish)
    (hx : shape.radii.x ≠ 0) (hy : shape.radii.y ≠ 0) :
    ∃ arc, Curve.ofArc? start finish shape = some (.arc arc) ∧
      ObeysFlags start finish shape arc :=
  ⟨_, ofArc?_eq_solve h hx hy, obeysFlags_solve hx hy h⟩

/-- The long way round against the direction of angles, on axes turned by 30 degrees. -/
theorem ofArc?_obeysFlags_long_way :
    (⟨0, 0⟩ : Point ℝ) ≠ ⟨8, 0⟩ ∧ (7 : ℝ) ≠ 0 ∧ (-6 : ℝ) ≠ 0 ∧
      ∃ arc, Curve.ofArc? ⟨0, 0⟩ ⟨8, 0⟩ ⟨⟨7, -6⟩, 30, true, false⟩ = some (.arc arc) ∧
        ObeysFlags ⟨0, 0⟩ ⟨8, 0⟩ ⟨⟨7, -6⟩, 30, true, false⟩ arc := by
  have ends : (⟨0, 0⟩ : Point ℝ) ≠ ⟨8, 0⟩ := by norm_num
  have first : (7 : ℝ) ≠ 0 := by norm_num
  have second : (-6 : ℝ) ≠ 0 := by norm_num
  exact ⟨ends, first, second, ofArc?_obeysFlags ends first second⟩

end LaserCut.Arc
