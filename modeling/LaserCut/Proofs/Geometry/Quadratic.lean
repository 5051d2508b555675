import LaserCut.Proofs.Geometry.Deviation

/-!
# How near a quadratic curve stays to its polyline

In exact arithmetic. A quadratic curve is a cubic whose third difference is zero (`elevated`). What
it does on a span is its deviation in the middle, spread by a parabola whose greatest value is 1, so
the one sample that flattening looks at bounds all others.

* `point_elevated`, `isFlatOn_elevated`: the cubic has the points of the quadratic curve at the same
  parameters, so its spans pass the test alike;
* `quadratic_followsChord`: a quadratic curve stays within the tolerance of the chord of every span
  that passes the test;
* `quadratic_near_polyline`: and so of its polyline, except on spans that may not be halved again.
-/

namespace LaserCut.Curve

open Exact

/-- At every parameter of a span the curve is within the tolerance of the point of the span's chord
at the same parameter. -/
def FollowsChord (curve : Curve ℝ) (tolerance : ℝ) (s : Span) : Prop :=
  ∀ u, 0 ≤ u → u ≤ 1 →
    (curve.point (s.start + s.extent * u)).near tolerance
      ((curve.startNode s).lerp (curve.finishNode s) u) = true

/-! ## Quadratic curves as cubics -/

/-- The quadratic curve through the given control points, written as a cubic. -/
noncomputable def elevated (p c q : Point ℝ) : Curve ℝ :=
  cubic p (p.lerp c (Scalar.two / Scalar.three)) (q.lerp c (Scalar.two / Scalar.three)) q

theorem elevated_eq (p c q : Point ℝ) :
    elevated p c q = cubic p (p.lerp c (2 / 3)) (q.lerp c (2 / 3)) q := by
  rw [elevated, two_eq, three_eq]

section Elevated

variable (p c q : Point ℝ)

theorem point_quadratic {t : ℝ} (h₀ : 0 ≤ t) (h₁ : t ≤ 1) :
    (quadratic p c q).point t =
      ⟨p.x * (1 - t) ^ 2 + 2 * c.x * (1 - t) * t + q.x * t ^ 2,
        p.y * (1 - t) ^ 2 + 2 * c.y * (1 - t) * t + q.y * t ^ 2⟩ := by
  have weights (a b e : ℝ) : a * ((1 - t) * (1 - t)) + b * (Scalar.two * (1 - t) * t) +
      e * (t * t) = a * (1 - t) ^ 2 + 2 * b * (1 - t) * t + e * t ^ 2 := by
    rw [two_eq]
    ring
  rw [point, clampUnit_eq h₀ h₁, ← weights, ← weights]
  rfl

theorem point_elevated {t : ℝ} (h₀ : 0 ≤ t) (h₁ : t ≤ 1) :
    (elevated p c q).point t = (quadratic p c q).point t := by
  have coefficients (a b e : ℝ) : bezier a (a + (b - a) * (2 / 3)) (e + (b - e) * (2 / 3)) e t =
      a * (1 - t) ^ 2 + 2 * b * (1 - t) * t + e * t ^ 2 := by
    rw [bezier]
    ring
  rw [elevated_eq, point_cubic _ _ _ _ h₀ h₁, point_quadratic p c q h₀ h₁, ← coefficients,
    ← coefficients]
  rfl

theorem node_elevated {k j : Nat} (h : j ≤ 2 ^ k) :
    (elevated p c q).node k j = (quadratic p c q).node k j := by
  have nonneg : (0 : ℝ) ≤ dyadic k j := by
    rw [dyadic_eq]
    positivity
  have le_one : (dyadic k j : ℝ) ≤ 1 := by
    rw [dyadic_eq, div_le_one (by positivity)]
    exact_mod_cast h
  rw [node, node, point_elevated p c q nonneg le_one]
  rfl

theorem startNode_elevated (s : Span) :
    (elevated p c q).startNode s = (quadratic p c q).startNode s :=
  node_elevated p c q s.index_lt.le

theorem finishNode_elevated (s : Span) :
    (elevated p c q).finishNode s = (quadratic p c q).finishNode s :=
  node_elevated p c q s.index_lt

theorem isFlatOn_elevated (tolerance : ℝ) (s : Span) :
    (elevated p c q).isFlatOn tolerance s = (quadratic p c q).isFlatOn tolerance s := by
  rw [isFlatOn, isFlatOn, startNode_elevated, finishNode_elevated,
    point_elevated p c q s.middle_nonneg s.middle_le_one]

/-- Nothing of a quadratic curve vanishes at both ends and in the middle of a span. -/
theorem cubicity_elevated : cubicity p (p.lerp c (2 / 3)) (q.lerp c (2 / 3)) q = 0 := by
  rw [cubicity, norm_eq_zero, Point.toComplex_lerp, Point.toComplex_lerp]
  push_cast
  ring

variable {p c q} {tolerance : ℝ} {s : Span}

/-- One sample for each span is enough. -/
theorem quadratic_followsChord (flat : (quadratic p c q).isFlatOn tolerance s = true) :
    (quadratic p c q).FollowsChord tolerance s := by
  intro u h₀ h₁
  have extent := s.extent_pos
  have start := s.start_nonneg
  have finish := s.finish_le_one
  rw [s.finish_eq] at finish
  have inside : s.extent * u ≤ s.extent := mul_le_of_le_one_right extent.le h₁
  rw [← isFlatOn_elevated, elevated_eq] at flat
  have bound := norm_deviation_le p _ _ q s flat h₀ h₁
  rw [cubicity_elevated, mul_zero, add_zero] at bound
  rw [← point_elevated p c q (by positivity) (by linarith), ← startNode_elevated,
    ← finishNode_elevated, elevated_eq]
  exact Point.near_iff.mpr bound

end Elevated

/-! ## The whole curve -/

/-- Every parameter lies in a span that passed the test or in one that may not be halved again. -/
theorem exists_mem_spans (curve : Curve ℝ) (tolerance : ℝ) {t : ℝ} (h₀ : 0 ≤ t) (h₁ : t ≤ 1) :
    ∃ s ∈ curve.spans tolerance, (s.start ≤ t ∧ t ≤ s.finish) ∧
      (s.depth < maxHalvings ∨ s.depth = maxHalvings) := by
  obtain ⟨s, mem, within⟩ : ∃ s ∈ curve.spans tolerance, (s.start : ℝ) ≤ t ∧ t ≤ s.finish :=
    exists_mem_finalSpans (Nat.le_of_eq (Nat.zero_add _)) (h₀.trans_eq' Span.start_whole.symm)
      (h₁.trans_eq Span.finish_whole.symm)
  have depth : s.depth ≤ maxHalvings :=
    ((isDyadicPartition_spans curve tolerance).depth s mem).2
  exact ⟨s, mem, within, Nat.lt_or_eq_of_le depth⟩

/-- A curve that follows the chord of a span is near the polyline there. -/
theorem FollowsChord.exists_onPolyline {curve : Curve ℝ} {tolerance t : ℝ} {s : Span}
    (follows : curve.FollowsChord tolerance s)
    (piece : (curve.startNode s, curve.finishNode s) ∈
      pieces (curve.start :: curve.flatten tolerance))
    (after : s.start ≤ t) (before : t ≤ s.finish) :
    ∃ r, OnPolyline (curve.start :: curve.flatten tolerance) r ∧
      (curve.point t).near tolerance r = true := by
  obtain ⟨u, u₀, u₁, rfl⟩ := s.exists_parameter after before
  exact ⟨_, ⟨_, piece, u, u₀, u₁, rfl⟩, follows u u₀ u₁⟩

/-- On every span that flattening accepts before the greatest depth, a quadratic curve stays within
the tolerance of the chord, which is a piece of the polyline. The curve as a whole stays within the
tolerance of the polyline, apart from spans that were cut off at the greatest depth. -/
theorem quadratic_near_polyline (p c q : Point ℝ) (tolerance : ℝ) :
    (∀ s ∈ (quadratic p c q).spans tolerance, s.depth < maxHalvings →
      ((quadratic p c q).startNode s, (quadratic p c q).finishNode s) ∈
          pieces (p :: (quadratic p c q).flatten tolerance) ∧
        (quadratic p c q).FollowsChord tolerance s) ∧
      ∀ t, 0 ≤ t → t ≤ 1 →
        (∃ s ∈ (quadratic p c q).spans tolerance,
          s.depth = maxHalvings ∧ s.start ≤ t ∧ t ≤ s.finish) ∨
        ∃ r, OnPolyline (p :: (quadratic p c q).flatten tolerance) r ∧
          ((quadratic p c q).point t).near tolerance r = true := by
  have accepted : ∀ s ∈ (quadratic p c q).spans tolerance, s.depth < maxHalvings →
      ((quadratic p c q).startNode s, (quadratic p c q).finishNode s) ∈
          pieces (p :: (quadratic p c q).flatten tolerance) ∧
        (quadratic p c q).FollowsChord tolerance s := by
    intro s mem less
    have chords := pieces_flatten (quadratic p c q) tolerance (fun _ _ h => by cases h)
    refine ⟨?_, quadratic_followsChord ?_⟩
    · show _ ∈ pieces ((quadratic p c q).start :: _)
      rw [chords]
      exact List.mem_map_of_mem mem
    · exact (isDyadicPartition_spans _ tolerance).flat s mem less
  refine ⟨accepted, fun t h₀ h₁ => ?_⟩
  obtain ⟨s, mem, ⟨after, before⟩, less | full⟩ :=
    exists_mem_spans (quadratic p c q) tolerance h₀ h₁
  · obtain ⟨piece, follows⟩ := accepted s mem less
    exact .inr (follows.exists_onPolyline piece after before)
  · exact .inl ⟨s, mem, full, after, before⟩

/-- The first quarter is final if it is flat. -/
theorem quarter_mem_spans {curve : Curve ℝ} {tolerance : ℝ}
    (flat : curve.isFlatOn tolerance quarter = true) : quarter ∈ curve.spans tolerance := by
  have final : curve.finalSpans tolerance 14 quarter = [quarter] := by
    rw [finalSpans, flat]
    rfl
  have first : quarter ∈ curve.finalSpans tolerance 15 Span.whole.left := by
    rw [finalSpans, if_neg (by simp [minHalvings, Span.left, Span.whole])]
    exact List.mem_append_left _ (final ▸ List.mem_singleton_self quarter)
  show quarter ∈ curve.finalSpans tolerance (15 + 1) Span.whole
  rw [finalSpans, if_neg (by simp [minHalvings, Span.whole])]
  exact List.mem_append_left _ first

/-- An arch whose quarters leave their chords by 1/16 in the middle. -/
noncomputable def arch : Curve ℝ := quadratic ⟨0, 0⟩ ⟨1, Scalar.two⟩ ⟨Scalar.two, 0⟩

theorem isFlatOn_arch : arch.isFlatOn (1 / 16) quarter = true := by
  have sag : (elevated ⟨0, 0⟩ ⟨1, 2⟩ ⟨2, 0⟩).sag quarter = (1 / 16 : ℝ) * Complex.I := by
    rw [elevated_eq, sag_cubic, sag_eq, start_quarter, extent_quarter]
    apply Complex.ext <;> norm_num [Point.toComplex, Point.lerp]
  rw [arch, two_eq, ← isFlatOn_elevated, isFlatOn_iff, sag, norm_mul, Complex.norm_I, mul_one,
    Complex.norm_real, Real.norm_of_nonneg (by norm_num)]

theorem quadratic_near_polyline_arch :
    quarter ∈ arch.spans (1 / 16) ∧ quarter.depth < maxHalvings ∧
      arch.FollowsChord (1 / 16) quarter := by
  have mem := quarter_mem_spans isFlatOn_arch
  have shallow : quarter.depth < maxHalvings := by decide
  exact ⟨mem, shallow, ((quadratic_near_polyline _ _ _ _).1 quarter mem shallow).2⟩

end LaserCut.Curve
