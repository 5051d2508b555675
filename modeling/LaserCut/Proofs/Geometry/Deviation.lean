import LaserCut.Proofs.Geometry.Subdivision
import LaserCut.Proofs.Reals

/-!
# How far a cubic strays from its polyline

In exact arithmetic. Flattening looks at the middle of a span only. What a cubic does elsewhere on a
span that passes is its deviation in the middle, spread by a parabola, and a cubic that vanishes in
the middle: its size is that of the third difference of the control points (`cubicity`).

* `pieces_flatten`: the pieces of the polyline are the chords of the final spans;
* `deviation_eq`: the deviation from the chord at any parameter of a span;
* `isFlatOn_of_sag`: spans that are short enough pass;
* `cubic_near_polyline`: the bound for a whole cubic;
* `not_cubic_near_polyline`: the tolerance alone is no bound.
-/

namespace LaserCut.Curve

open Exact

/-! ## Polylines -/

/-- The straight pieces of the polyline through the given vertices. -/
def pieces {α : Type} (vertices : List (Point α)) : List (Point α × Point α) :=
  vertices.zip vertices.tail

/-- A point on the polyline through the given vertices. -/
def OnPolyline (vertices : List (Point ℝ)) (r : Point ℝ) : Prop :=
  ∃ piece ∈ pieces vertices, ∃ u, 0 ≤ u ∧ u ≤ 1 ∧ r = piece.1.lerp piece.2 u

theorem pieces_flatten {α : Type} [Scalar α] [ExactHalving α] (curve : Curve α) (tolerance : α)
    (h : ∀ p q, curve ≠ .line p q) :
    pieces (curve.start :: curve.flatten tolerance) =
      (curve.spans tolerance).map fun s => (curve.startNode s, curve.finishNode s) := by
  have meet : (curve.spans tolerance).map curve.startNode ++ [curve.finish] =
      curve.start :: (curve.spans tolerance).map curve.finishNode :=
    map_finalSpans curve.startNode curve.finishNode (fun _ => curve.startNode_left)
      (fun s => (curve.startNode_right s).trans (curve.finishNode_left s).symm)
      (fun _ => curve.finishNode_right) (Nat.le_refl _)
  have lengths : ((curve.spans tolerance).map curve.startNode).length =
      ((curve.spans tolerance).map curve.finishNode).length := by
    rw [List.length_map, List.length_map]
  rw [pieces, flatten_eq_map_node curve tolerance h, List.tail_cons, ← meet,
    ← List.append_nil (List.map curve.finishNode _), List.zip_append lengths, List.zip_map',
    List.zip_nil_right, List.append_nil]

/-- Every parameter of a span lies in one of its final spans. -/
theorem exists_mem_finalSpans {curve : Curve ℝ} {tolerance t : ℝ} :
    ∀ {n : Nat} {s : Span}, s.depth + n ≤ maxHalvings → s.start ≤ t → t ≤ s.finish →
      ∃ r ∈ curve.finalSpans tolerance n s, r.start ≤ t ∧ t ≤ r.finish
  | 0, s, _, from_start, to_finish => ⟨s, List.mem_singleton_self s, from_start, to_finish⟩
  | n + 1, s, h, from_start, to_finish => by
    have inner : s.depth < maxHalvings := by omega
    rw [finalSpans]
    split
    · exact ⟨s, List.mem_singleton_self s, from_start, to_finish⟩
    · rcases le_total t s.middle with before | after
      · obtain ⟨r, hr, within⟩ := exists_mem_finalSpans (n := n) (s := s.left)
          (by show s.depth + 1 + n ≤ _; omega) (by rwa [s.start_left inner]) before
        exact ⟨r, List.mem_append_left _ hr, within⟩
      · obtain ⟨r, hr, within⟩ := exists_mem_finalSpans (n := n) (s := s.right)
          (by show s.depth + 1 + n ≤ _; omega) after (by rwa [s.finish_right inner])
        exact ⟨r, List.mem_append_right _ hr, within⟩

/-! ## One span of a cubic -/

/-- The cubic Bézier polynomial with the given coefficients. -/
def bezier {R : Type} [CommRing R] (p c d q t : R) : R :=
  p * (1 - t) ^ 3 + 3 * c * (1 - t) ^ 2 * t + 3 * d * (1 - t) * t ^ 2 + q * t ^ 3

/-- The chord leaves the curve by a multiple of its deviation in the middle, and by a cubic that
vanishes at both ends and in the middle. -/
theorem deviation_eq (p c d q t h u : ℂ) :
    bezier p c d q (t + h * u) -
        (bezier p c d q t + u * (bezier p c d q (t + h) - bezier p c d q t)) =
      4 * u * (1 - u) * (bezier p c d q (t + h / 2) -
        (bezier p c d q t + bezier p c d q (t + h)) / 2) +
      h ^ 3 * (u * (1 - u) * (1 - 2 * u) / 2) * (q - 3 * d + 3 * c - p) := by
  unfold bezier
  ring

/-- The deviation in the middle of a span is that of the second differences of the control
points. -/
theorem sag_eq (p c d q t h : ℂ) :
    bezier p c d q (t + h / 2) - (bezier p c d q t + bezier p c d q (t + h)) / 2 =
      -(3 / 4 * h ^ 2 * ((1 - (t + h / 2)) * (p - 2 * c + d) + (t + h / 2) * (c - 2 * d + q))) := by
  unfold bezier
  ring

/-- The greatest value of the cubic in `deviation_eq`. -/
theorem abs_cubic_le {u : ℝ} (h₀ : 0 ≤ u) (h₁ : u ≤ 1) :
    |u * (1 - u) * (1 - 2 * u) / 2| ≤ √3 / 36 := by
  have product : 0 ≤ u * (1 - u) := mul_nonneg h₀ (sub_nonneg.mpr h₁)
  have square : (√3 / 36) ^ 2 = 1 / 432 := by
    rw [div_pow, Real.sq_sqrt (by norm_num)]
    norm_num
  refine abs_le_of_sq_le_sq ?_ (by positivity)
  rw [square]
  nlinarith [mul_nonneg (sq_nonneg (u * (1 - u) - 1 / 6)) (by linarith : 0 ≤ u * (1 - u) + 1 / 12)]

section Cubic

variable (p c d q : Point ℝ)

theorem point_cubic {t : ℝ} (h₀ : 0 ≤ t) (h₁ : t ≤ 1) :
    (cubic p c d q).point t = ⟨bezier p.x c.x d.x q.x t, bezier p.y c.y d.y q.y t⟩ := by
  have weights (a b e f : ℝ) : a * ((1 - t) * (1 - t) * (1 - t)) +
      b * (Scalar.three * ((1 - t) * (1 - t)) * t) + e * (Scalar.three * (1 - t) * (t * t)) +
      f * (t * t * t) = bezier a b e f t := by
    rw [three_eq, bezier]
    ring
  rw [point, clampUnit_eq h₀ h₁, ← weights, ← weights]
  rfl

/-- The ends of a cubic are samples like any other. -/
theorem node_cubic (k j : Nat) :
    (cubic p c d q).node k j = (cubic p c d q).point (dyadic k j) := by
  rw [node]
  split
  · rename_i first
    rw [first, dyadic_eq, Nat.cast_zero, zero_div, point_cubic p c d q le_rfl zero_le_one]
    simp [bezier, start]
  · split
    · rename_i last
      rw [last, dyadic_eq, Nat.cast_pow, Nat.cast_ofNat, div_self (by positivity),
        point_cubic p c d q zero_le_one le_rfl]
      simp [bezier, finish]
    · rfl

theorem toComplex_point {t : ℝ} (h₀ : 0 ≤ t) (h₁ : t ≤ 1) :
    ((cubic p c d q).point t).toComplex =
      bezier p.toComplex c.toComplex d.toComplex q.toComplex t := by
  have parts (z : Point ℝ) : z.toComplex = z.x + z.y * Complex.I :=
    (Complex.re_add_im z.toComplex).symm
  rw [point_cubic p c d q h₀ h₁, parts, parts p, parts c, parts d, parts q, bezier, bezier, bezier]
  push_cast
  ring

variable (s : Span)

theorem toComplex_startNode :
    ((cubic p c d q).startNode s).toComplex =
      bezier p.toComplex c.toComplex d.toComplex q.toComplex (s.start : ℝ) := by
  rw [startNode, node_cubic]
  exact toComplex_point p c d q s.start_nonneg (s.start_le_finish.trans s.finish_le_one)

theorem toComplex_finishNode :
    ((cubic p c d q).finishNode s).toComplex =
      bezier p.toComplex c.toComplex d.toComplex q.toComplex ((s.start : ℝ) + s.extent) := by
  rw [finishNode, node_cubic, ← Complex.ofReal_add, ← s.finish_eq]
  exact toComplex_point p c d q (s.start_nonneg.trans s.start_le_finish) s.finish_le_one

/-- The deviation from the chord in the middle of a span. -/
noncomputable def sag (curve : Curve ℝ) (s : Span) : ℂ :=
  (curve.point s.middle).toComplex - ((curve.startNode s).midpoint (curve.finishNode s)).toComplex

theorem isFlatOn_iff {curve : Curve ℝ} {tolerance : ℝ} {s : Span} :
    curve.isFlatOn tolerance s = true ↔ ‖curve.sag s‖ ≤ tolerance := Point.near_iff

theorem sag_cubic :
    (cubic p c d q).sag s =
      bezier p.toComplex c.toComplex d.toComplex q.toComplex ((s.start : ℝ) + (s.extent : ℂ) / 2) -
        (bezier p.toComplex c.toComplex d.toComplex q.toComplex (s.start : ℝ) +
          bezier p.toComplex c.toComplex d.toComplex q.toComplex ((s.start : ℝ) + s.extent)) /
            2 := by
  rw [sag, toComplex_point p c d q s.middle_nonneg s.middle_le_one, Point.toComplex_midpoint,
    toComplex_startNode, toComplex_finishNode, s.middle_eq]
  push_cast
  rfl

/-- Short spans are flat: the deviation in the middle shrinks with the square of the length. -/
theorem norm_sag_le {bound : ℝ}
    (first : ‖p.toComplex - 2 * c.toComplex + d.toComplex‖ ≤ bound)
    (second : ‖c.toComplex - 2 * d.toComplex + q.toComplex‖ ≤ bound) :
    ‖(cubic p c d q).sag s‖ ≤ 3 / 4 * s.extent ^ 2 * bound := by
  have m₀ := s.middle_nonneg
  have m₁ := sub_nonneg.mpr s.middle_le_one
  -- The second difference at the middle lies between those at the ends.
  have between : ‖(1 - s.middle : ℝ) * (p.toComplex - 2 * c.toComplex + d.toComplex) +
      (s.middle : ℝ) * (c.toComplex - 2 * d.toComplex + q.toComplex)‖ ≤ bound :=
    calc
      _ ≤ (1 - s.middle) * bound + s.middle * bound := by
        refine norm_add_le_of_le ?_ ?_
        · rw [norm_mul, Complex.norm_of_nonneg m₁]
          exact mul_le_mul_of_nonneg_left first m₁
        · rw [norm_mul, Complex.norm_of_nonneg m₀]
          exact mul_le_mul_of_nonneg_left second m₀
      _ = bound := by ring
  have factor : (0 : ℝ) ≤ 3 / 4 * s.extent ^ 2 := by positivity
  have sag : (cubic p c d q).sag s = -((3 / 4 * s.extent ^ 2 : ℝ) *
      ((1 - s.middle : ℝ) * (p.toComplex - 2 * c.toComplex + d.toComplex) +
        (s.middle : ℝ) * (c.toComplex - 2 * d.toComplex + q.toComplex))) := by
    rw [sag_cubic, sag_eq, s.middle_eq]
    push_cast
    rfl
  rw [sag, norm_neg, norm_mul, Complex.norm_of_nonneg factor]
  exact mul_le_mul_of_nonneg_left between factor

/-- The size of the third difference of the control points. It is zero for a quadratic curve that
is written as a cubic. -/
noncomputable def cubicity : ℝ :=
  ‖q.toComplex - 3 * d.toComplex + 3 * c.toComplex - p.toComplex‖

/-- What separates curve and chord at the same parameter of a span. -/
theorem toComplex_deviation {u : ℝ} (h₀ : 0 ≤ u) (h₁ : u ≤ 1) :
    ((cubic p c d q).point (s.start + s.extent * u)).toComplex -
        (((cubic p c d q).startNode s).lerp ((cubic p c d q).finishNode s) u).toComplex =
      (4 * u * (1 - u) : ℝ) * (cubic p c d q).sag s +
        (s.extent ^ 3 * (u * (1 - u) * (1 - 2 * u) / 2) : ℝ) *
          (q.toComplex - 3 * d.toComplex + 3 * c.toComplex - p.toComplex) := by
  have extent := s.extent_pos
  have start := s.start_nonneg
  have finish := s.finish_le_one
  rw [s.finish_eq] at finish
  have inside : s.extent * u ≤ s.extent := mul_le_of_le_one_right extent.le h₁
  rw [toComplex_point p c d q (by positivity) (by linarith), Point.toComplex_lerp,
    toComplex_startNode, toComplex_finishNode, sag_cubic]
  push_cast
  exact deviation_eq ..

theorem norm_deviation_le {tolerance u : ℝ} (flat : (cubic p c d q).isFlatOn tolerance s = true)
    (h₀ : 0 ≤ u) (h₁ : u ≤ 1) :
    ‖((cubic p c d q).point (s.start + s.extent * u)).toComplex -
        (((cubic p c d q).startNode s).lerp ((cubic p c d q).finishNode s) u).toComplex‖ ≤
      tolerance + s.extent ^ 3 * (√3 / 36) * cubicity p c d q := by
  have extent := s.extent_pos
  have rest := sub_nonneg.mpr h₁
  have parabola : ‖(4 * u * (1 - u) : ℝ)‖ ≤ 1 := by
    rw [Real.norm_of_nonneg (by positivity)]
    nlinarith [sq_nonneg (2 * u - 1)]
  have wave : ‖(s.extent ^ 3 * (u * (1 - u) * (1 - 2 * u) / 2) : ℝ)‖ ≤
      s.extent ^ 3 * (√3 / 36) := by
    rw [norm_mul, Real.norm_of_nonneg (by positivity)]
    exact mul_le_mul_of_nonneg_left (abs_cubic_le h₀ h₁) (by positivity)
  rw [toComplex_deviation p c d q s h₀ h₁]
  refine norm_add_le_of_le ?_ ?_
  · rw [norm_mul, Complex.norm_real]
    exact (mul_le_of_le_one_left (norm_nonneg _) parabola).trans (isFlatOn_iff.mp flat)
  · rw [norm_mul, Complex.norm_real]
    exact mul_le_mul_of_nonneg_right wave (norm_nonneg _)

/-- Spans that may not be halved again are flat unless the second differences of the control points
are large beside the tolerance. -/
theorem isFlatOn_of_maxHalvings {tolerance : ℝ}
    (first : 3 * ‖p.toComplex - 2 * c.toComplex + d.toComplex‖ ≤ 4 ^ 17 * tolerance)
    (second : 3 * ‖c.toComplex - 2 * d.toComplex + q.toComplex‖ ≤ 4 ^ 17 * tolerance)
    (depth : s.depth = maxHalvings) : (cubic p c d q).isFlatOn tolerance s = true := by
  have sag := norm_sag_le p c d q s ((le_div_iff₀' three_pos).mpr first)
    ((le_div_iff₀' three_pos).mpr second)
  rw [isFlatOn_iff]
  refine sag.trans_eq ?_
  rw [Span.extent, depth, maxHalvings]
  ring

end Cubic

/-! ## A cubic that strays far -/

/-- A cubic that is S-shaped on its first quarter, with the middle of the quarter on its chord. -/
noncomputable def sShape : Curve ℝ :=
  cubic ⟨0, 0⟩ ⟨Scalar.ofNat 8, Scalar.ofNat 10⟩ ⟨Scalar.ofNat 16, -Scalar.ofNat 100⟩
    ⟨Scalar.ofNat 24, Scalar.ofNat 630⟩

theorem sShape_eq : sShape = cubic ⟨0, 0⟩ ⟨8, 10⟩ ⟨16, -100⟩ ⟨24, 630⟩ := by
  simp only [sShape, ofNat_eq, Nat.cast_ofNat]

theorem point_sShape {t : ℝ} (h₀ : 0 ≤ t) (h₁ : t ≤ 1) :
    sShape.point t = ⟨24 * t, 960 * t ^ 3 - 360 * t ^ 2 + 30 * t⟩ := by
  rw [sShape_eq, point_cubic _ _ _ _ h₀ h₁, bezier, bezier]
  congr 1 <;> ring

theorem isFlatOn_sShape {s : Span} (depth : s.depth = maxHalvings) :
    sShape.isFlatOn (1 / 2) s = true := by
  rw [sShape_eq]
  refine isFlatOn_of_maxHalvings _ _ _ _ s ?_ ?_ depth
  · have := Complex.norm_le_abs_re_add_abs_im (Point.toComplex ⟨0, 0⟩ -
      2 * Point.toComplex ⟨8, 10⟩ + Point.toComplex ⟨16, -100⟩)
    norm_num [Point.toComplex] at this ⊢
    linarith
  · have := Complex.norm_le_abs_re_add_abs_im (Point.toComplex ⟨8, 10⟩ -
      2 * Point.toComplex ⟨16, -100⟩ + Point.toComplex ⟨24, 630⟩)
    norm_num [Point.toComplex] at this ⊢
    linarith

/-- The first quarter of the unit interval. -/
def quarter : Span := ⟨2, 0, by decide⟩

theorem start_quarter : (quarter.start : ℝ) = 0 := by
  rw [Span.start, dyadic_eq]
  simp [quarter]

theorem extent_quarter : quarter.extent = 1 / 4 := by
  rw [Span.extent]
  norm_num [quarter]

theorem isFlatOn_quarter : sShape.isFlatOn (1 / 2) quarter = true := by
  have sag : sShape.sag quarter = 0 := by
    rw [sShape_eq, sag_cubic, sag_eq, start_quarter, extent_quarter]
    apply Complex.ext <;> norm_num [Point.toComplex]
  rw [isFlatOn_iff, sag, norm_zero]
  norm_num

/-- The first quarter is final, and the other spans come after it. -/
theorem eq_quarter_or_le {s : Span} (mem : s ∈ sShape.spans (1 / 2)) :
    s = quarter ∨ (1 / 4 : ℝ) ≤ s.start := by
  have partition := isDyadicPartition_spans sShape (1 / 2)
  have deep := (partition.depth s mem).1
  rcases Nat.eq_zero_or_pos (s.indexAt 2) with zero | pos
  · have within : s.Within quarter := ⟨deep, zero⟩
    refine .inl (Span.eq_of_within within ?_)
    by_contra! shallow
    have halved := partition.halved quarter le_rfl ⟨s, mem, within, shallow⟩
    rw [isFlatOn_quarter] at halved
    cases halved
  · have far : 2 ^ (s.depth - 2) ≤ s.index := (Nat.div_pos_iff.mp pos).2
    have power : 2 ^ s.depth = 4 * 2 ^ (s.depth - 2) := by
      rw [show 4 = 2 ^ 2 from rfl, ← Nat.pow_add, Nat.add_sub_cancel' deep]
    right
    rw [Span.start, dyadic_eq, le_div_iff₀ (by positivity)]
    have : (2 ^ s.depth : ℝ) ≤ 4 * s.index := by exact_mod_cast power ▸ Nat.mul_le_mul_left 4 far
    linarith

theorem startNode_sShape (s : Span) :
    sShape.startNode s =
      ⟨24 * s.start, 960 * s.start ^ 3 - 360 * s.start ^ 2 + 30 * s.start⟩ :=
  (node_cubic _ _ _ _ _ _).trans
    (point_sShape s.start_nonneg (s.start_le_finish.trans s.finish_le_one))

theorem finishNode_sShape (s : Span) :
    sShape.finishNode s =
      ⟨24 * s.finish, 960 * s.finish ^ 3 - 360 * s.finish ^ 2 + 30 * s.finish⟩ :=
  (node_cubic _ _ _ _ _ _).trans
    (point_sShape (s.start_nonneg.trans s.start_le_finish) s.finish_le_one)

/-! ## The distance from the polyline -/

/-- Where every span that could not be halved again is flat, each point of a cubic is near the
polyline: within the tolerance, and on top of it what the cubicity can do on the longest span. -/
theorem cubic_near_polyline (p c d q : Point ℝ) {tolerance t : ℝ}
    (flat : ∀ s ∈ (cubic p c d q).spans tolerance, s.depth = maxHalvings →
      (cubic p c d q).isFlatOn tolerance s = true)
    (h₀ : 0 ≤ t) (h₁ : t ≤ 1) :
    ∃ r, OnPolyline ((cubic p c d q).start :: (cubic p c d q).flatten tolerance) r ∧
      ((cubic p c d q).point t).near (tolerance + √3 / 2304 * cubicity p c d q) r = true := by
  have partition := isDyadicPartition_spans (cubic p c d q) tolerance
  obtain ⟨s, mem, after, before⟩ : ∃ s ∈ (cubic p c d q).spans tolerance,
      (s.start : ℝ) ≤ t ∧ t ≤ s.finish :=
    exists_mem_finalSpans (Nat.le_of_eq (Nat.zero_add _)) (h₀.trans_eq' Span.start_whole.symm)
      (h₁.trans_eq Span.finish_whole.symm)
  have accepted : (cubic p c d q).isFlatOn tolerance s = true := by
    rcases Nat.lt_or_ge s.depth 16 with less | full
    · exact partition.flat s mem less
    · exact flat s mem (Nat.le_antisymm (partition.depth s mem).2 full)
  obtain ⟨u, u₀, u₁, rfl⟩ := s.exists_parameter after before
  have chord : ((cubic p c d q).startNode s, (cubic p c d q).finishNode s) ∈
      pieces ((cubic p c d q).start :: (cubic p c d q).flatten tolerance) := by
    rw [pieces_flatten (cubic p c d q) tolerance (fun _ _ h => by cases h)]
    exact List.mem_map_of_mem mem
  refine ⟨_, ⟨_, chord, u, u₀, u₁, rfl⟩, Point.near_iff.mpr ?_⟩
  calc
    _ ≤ tolerance + s.extent ^ 3 * (√3 / 36) * cubicity p c d q :=
      norm_deviation_le p c d q s accepted u₀ u₁
    _ ≤ tolerance + (1 / 2 ^ 2) ^ 3 * (√3 / 36) * cubicity p c d q := by
      have extent := s.extent_pos
      have longest := s.extent_le (partition.depth s mem).1
      have cubicity_nonneg : 0 ≤ cubicity p c d q := norm_nonneg _
      gcongr
    _ = tolerance + √3 / 2304 * cubicity p c d q := by ring

theorem sShape_near_polyline :
    (∀ s ∈ sShape.spans (1 / 2), s.depth = maxHalvings → sShape.isFlatOn (1 / 2) s = true) ∧
      (0 : ℝ) ≤ 1 / 16 ∧ (1 / 16 : ℝ) ≤ 1 ∧
      ∃ r, OnPolyline (sShape.start :: sShape.flatten (1 / 2)) r ∧
        (sShape.point (1 / 16)).near
          (1 / 2 + √3 / 2304 * cubicity ⟨0, 0⟩ ⟨8, 10⟩ ⟨16, -100⟩ ⟨24, 630⟩) r = true := by
  have flat : ∀ s ∈ sShape.spans (1 / 2), s.depth = maxHalvings →
      sShape.isFlatOn (1 / 2) s = true := fun _ _ => isFlatOn_sShape
  rw [sShape_eq] at flat ⊢
  exact ⟨flat, by norm_num, by norm_num,
    cubic_near_polyline _ _ _ _ flat (by norm_num) (by norm_num)⟩

/-- The tolerance alone does not bound the distance of a cubic from its polyline: the test of
flatness passes an S-shaped span whose middle lies on its chord. -/
theorem not_cubic_near_polyline : ¬ ∀ (p c d q : Point ℝ) (tolerance : ℝ), 0 < tolerance →
    (∀ s ∈ (cubic p c d q).spans tolerance, s.depth = maxHalvings →
      (cubic p c d q).isFlatOn tolerance s = true) →
    ∀ t, 0 ≤ t → t ≤ 1 →
      ∃ r, OnPolyline ((cubic p c d q).start :: (cubic p c d q).flatten tolerance) r ∧
        ((cubic p c d q).point t).near tolerance r = true := by
  intro claim
  obtain ⟨r, ⟨piece, mem, u, u₀, u₁, rfl⟩, near⟩ := claim _ _ _ _ (1 / 2) (by norm_num)
    (fun _ _ => isFlatOn_sShape) (1 / 16) (by norm_num) (by norm_num)
  change piece ∈ pieces (sShape.start :: sShape.flatten (1 / 2)) at mem
  change (sShape.point (1 / 16)).near _ _ = true at near
  rw [pieces_flatten sShape _ (fun _ _ h => by cases h)] at mem
  obtain ⟨s, final, rfl⟩ := List.mem_map.mp mem
  rw [Point.near_iff, point_sShape (by norm_num) (by norm_num), startNode_sShape,
    finishNode_sShape] at near
  rcases eq_quarter_or_le final with rfl | after
  · -- The chord of the quarter is level; the curve rises above it.
    have ordinate := (Complex.abs_im_le_norm _).trans near
    rw [Span.finish_eq, start_quarter, extent_quarter] at ordinate
    norm_num [Point.toComplex, Point.lerp] at ordinate
  · -- The other chords lie to the right of the quarter.
    have abscissa := (Complex.abs_re_le_norm _).trans near
    have ends := s.start_le_finish
    have right : 0 ≤ 24 * (s.finish - s.start) * u := by
      have := sub_nonneg.mpr ends
      positivity
    have := neg_le_of_abs_le abscissa
    change -(1 / 2) ≤ 24 * (1 / 16) - (24 * s.start + (24 * s.finish - 24 * s.start) * u) at this
    linarith

end LaserCut.Curve
