import LaserCut.Proofs.Geometry.Turns
import LaserCut.Proofs.PathData.Relative
import LaserCut.Proofs.Svg.ExactShapes

/-!
# Shapes with arcs

In exact arithmetic. What the path data of a rectangle with round corners, of a circle or of an
ellipse draws, if its numbers are written exactly.

* `uprightTurn`, `Arc.ofArc?_uprightTurn`: the arcs of these shapes, which are found again from
  their ends;
* `IsRoundRect`, `curves_roundRect`: four sides and four quarter turns, which stay in the rectangle;
* `IsFullTurn`, `curves_ellipse`: two half turns, which go through every point of the ellipse once.
-/

namespace LaserCut.Svg

open Exact
open Arc (uprightTurn quarterTurn halfTurn IsUpright)
open PathData (Pen curves draw)

/-! ## Steps of a pen -/

section Steps

variable (pen : Pen ℝ) (x y : ℝ)

theorem step_moveTo : pen.step (moveTo x y) = (⟨⟨x, y⟩, ⟨x, y⟩, .none⟩, none) := by
  rw [← PathData.origin_add_eq ⟨x, y⟩]
  rfl

theorem step_lineTo :
    pen.step (lineTo x y) = (pen.advance ⟨x, y⟩ .none, some (.line pen.current ⟨x, y⟩)) := by
  rw [← PathData.origin_add_eq ⟨x, y⟩]
  rfl

theorem step_arcTo (radii : Point ℝ) (large : Bool) :
    pen.step (arcTo radii.x radii.y large x y) =
      (pen.advance ⟨x, y⟩ .none,
        Curve.ofArc? pen.current ⟨x, y⟩ (Arc.upright radii large true)) := by
  rw [← PathData.origin_add_eq ⟨x, y⟩]
  rfl

theorem step_close (h : pen.current = pen.subpathStart) :
    pen.step close = (pen.advance pen.subpathStart .none, none) := by
  have same : pen.current.same pen.subpathStart = true := Point.same_iff.mpr h
  show (_, if pen.current.same pen.subpathStart then none else _) = _
  rw [same]
  rfl

end Steps

/-! ## Rectangles -/

section Rect

variable (x y width height : ℝ) (radii : Point ℝ)

/-- The curves of a rectangle with round corners. -/
noncomputable def roundSides : List (Curve ℝ) :=
  [.line ⟨x + radii.x, y⟩ ⟨x + width - radii.x, y⟩,
    .arc (quarterTurn ⟨x + width - radii.x, y + radii.y⟩ radii (-rightAngle)),
    .line ⟨x + width, y + radii.y⟩ ⟨x + width, y + height - radii.y⟩,
    .arc (quarterTurn ⟨x + width - radii.x, y + height - radii.y⟩ radii 0),
    .line ⟨x + width - radii.x, y + height⟩ ⟨x + radii.x, y + height⟩,
    .arc (quarterTurn ⟨x + radii.x, y + height - radii.y⟩ radii rightAngle),
    .line ⟨x, y + height - radii.y⟩ ⟨x, y + radii.y⟩,
    .arc (quarterTurn ⟨x + radii.x, y + radii.y⟩ radii Real.pi)]

theorem arcs_roundSides :
    Curve.arcs (roundSides x y width height radii) =
      [quarterTurn ⟨x + width - radii.x, y + radii.y⟩ radii (-rightAngle),
        quarterTurn ⟨x + width - radii.x, y + height - radii.y⟩ radii 0,
        quarterTurn ⟨x + radii.x, y + height - radii.y⟩ radii rightAngle,
        quarterTurn ⟨x + radii.x, y + radii.y⟩ radii Real.pi] := rfl

/-- A point of a rectangle, its sides included. -/
def InRect (p : Point ℝ) : Prop :=
  p.x ∈ Set.Icc x (x + width) ∧ p.y ∈ Set.Icc y (y + height)

/-- What a rectangle with round corners draws: in turn the sides and quarter turns with the given
radii around the corners of the rectangle that is inset by them. -/
structure IsRoundRect (cs : List (Curve ℝ)) : Prop where
  kinds : cs.map Curve.kind = [.line, .arc, .line, .arc, .line, .arc, .line, .arc]
  contiguous : cs.IsChain fun c d => c.finish = d.start
  closed : cs.getLast?.map Curve.finish = cs.head?.map Curve.start
  centers : (Curve.arcs cs).map Arc.center =
    [⟨x + width - radii.x, y + radii.y⟩, ⟨x + width - radii.x, y + height - radii.y⟩,
      ⟨x + radii.x, y + height - radii.y⟩, ⟨x + radii.x, y + radii.y⟩]
  startAngles : (Curve.arcs cs).map Arc.startAngle = [-(Real.pi / 2), 0, Real.pi / 2, Real.pi]
  quarters : ∀ a ∈ Curve.arcs cs, IsUpright radii (Real.pi / 2) a
  inside : ∀ c ∈ cs, ∀ t, InRect x y width height (c.point t)

variable {x y width height radii}

theorem inRect_line {p q : Point ℝ} (hp : InRect x y width height p)
    (hq : InRect x y width height q) (t : ℝ) :
    InRect x y width height ((Curve.line p q).point t) := by
  have between {a b u v : ℝ} (hu : u ∈ Set.Icc a b) (hv : v ∈ Set.Icc a b) :
      u + (v - u) * Scalar.clampUnit t ∈ Set.Icc a b := by
    rw [mul_comm]
    exact (convex_Icc a b).add_smul_sub_mem hu hv (clampUnit_mem t)
  exact ⟨between hp.1 hq.1, between hp.2 hq.2⟩

variable (hx : 0 < radii.x) (hy : 0 < radii.y)

include hx hy

/-- An ellipse whose centre is as far from the sides as its radii. -/
theorem inRect_uprightTurn {center : Point ℝ}
    (inset : InRect (x + radii.x) (y + radii.y) (width - 2 * radii.x) (height - 2 * radii.y) center)
    (large : Bool) (angle sweep t : ℝ) :
    InRect x y width height
      ((Curve.arc (uprightTurn center radii large angle sweep)).point t) := by
  rw [Arc.point_uprightTurn, Arc.pointAt_upright]
  generalize angle + sweep * Scalar.clampUnit t = seen
  obtain ⟨⟨left, right⟩, top, bottom⟩ := inset
  have cos := mul_le_mul_of_nonneg_left (Real.cos_le_one seen) hx.le
  have cos' := mul_le_mul_of_nonneg_left (Real.neg_one_le_cos seen) hx.le
  have sin := mul_le_mul_of_nonneg_left (Real.sin_le_one seen) hy.le
  have sin' := mul_le_mul_of_nonneg_left (Real.neg_one_le_sin seen) hy.le
  refine ⟨⟨?_, ?_⟩, ?_, ?_⟩ <;> dsimp only <;> linarith

theorem isRoundRect_roundSides (wide : 2 * radii.x ≤ width) (high : 2 * radii.y ≤ height) :
    IsRoundRect x y width height radii (roundSides x y width height radii) where
  kinds := rfl
  contiguous := by simp [roundSides, Curve.start, Curve.finish, Transform.identity_apply]
  closed := by simp [roundSides, Curve.start, Curve.finish, Transform.identity_apply]
  centers := rfl
  startAngles := rfl
  quarters := by
    have quarter {center : Point ℝ} {angle : ℝ} :
        IsUpright radii (Real.pi / 2) (quarterTurn center radii angle) :=
      Arc.isUpright_uprightTurn center radii false angle rightAngle
    simp only [arcs_roundSides, List.forall_mem_cons]
    exact ⟨quarter, quarter, quarter, quarter, List.forall_mem_nil _⟩
  inside := by
    simp only [roundSides, List.forall_mem_cons]
    refine ⟨inRect_line ?_ ?_, inRect_uprightTurn hx hy ?_ _ _ _, inRect_line ?_ ?_,
      inRect_uprightTurn hx hy ?_ _ _ _, inRect_line ?_ ?_, inRect_uprightTurn hx hy ?_ _ _ _,
      inRect_line ?_ ?_, inRect_uprightTurn hx hy ?_ _ _ _, List.forall_mem_nil _⟩ <;>
      refine ⟨⟨?_, ?_⟩, ?_, ?_⟩ <;> dsimp only <;> linarith

variable (x y width height)

theorem draw_roundRect :
    draw (roundRect x y width height radii.x radii.y) = roundSides x y width height radii := by
  have pi := Real.pi_pos
  have quarter := rightAngle_eq
  have topRight : Curve.ofArc? ⟨x + width - radii.x, y⟩ ⟨x + width, y + radii.y⟩
      (Arc.upright radii false true) =
        some (.arc (quarterTurn ⟨x + width - radii.x, y + radii.y⟩ radii (-rightAngle))) :=
    Arc.ofArc?_uprightTurn _ hx hy ⟨by linarith, by linarith⟩ Arc.fitsSweep_quarter (by simp)
      (by simp)
  have bottomRight :
      Curve.ofArc? ⟨x + width, y + height - radii.y⟩ ⟨x + width - radii.x, y + height⟩
        (Arc.upright radii false true) =
          some (.arc (quarterTurn ⟨x + width - radii.x, y + height - radii.y⟩ radii 0)) :=
    Arc.ofArc?_uprightTurn _ hx hy ⟨by linarith, by linarith⟩ Arc.fitsSweep_quarter (by simp)
      (by simp)
  have bottomLeft : Curve.ofArc? ⟨x + radii.x, y + height⟩ ⟨x, y + height - radii.y⟩
      (Arc.upright radii false true) =
        some (.arc (quarterTurn ⟨x + radii.x, y + height - radii.y⟩ radii rightAngle)) :=
    Arc.ofArc?_uprightTurn _ hx hy ⟨by linarith, by linarith⟩ Arc.fitsSweep_quarter (by simp)
      (by simp)
  have topLeft : Curve.ofArc? ⟨x, y + radii.y⟩ ⟨x + radii.x, y⟩
      (Arc.upright radii false true) =
        some (.arc (quarterTurn ⟨x + radii.x, y + radii.y⟩ radii Real.pi)) :=
    Arc.ofArc?_uprightTurn _ hx hy ⟨by linarith, le_rfl⟩ Arc.fitsSweep_quarter (by simp) (by simp)
  simp only [draw, roundRect, Pen.trace, step_moveTo, step_lineTo, step_arcTo, Pen.advance,
    topRight, bottomRight, bottomLeft, topLeft]
  -- The pen is back where it began, so that closing adds no line.
  rw [step_close _ rfl]
  rfl

end Rect

/-- The radii of round corners: the one that is not given, or not positive, is the other, and
neither exceeds half a side. -/
noncomputable def cornerRadii (rx ry width height : ℝ) : Point ℝ :=
  ⟨min (if 0 < rx then rx else ry) (width / Scalar.two),
    min (if 0 < ry then ry else rx) (height / Scalar.two)⟩

section CornerRadii

variable {rx ry width height : ℝ} (round : 0 < rx ∨ 0 < ry)

include round

theorem cornerRadii?_eq :
    cornerRadii? rx ry width height =
      some ((cornerRadii rx ry width height).x, (cornerRadii rx ry width height).y) := by
  have clamped (r side : ℝ) :
      (if side / Scalar.two < r then side / Scalar.two else r) = min r (side / Scalar.two) := by
    split
    · rename_i far
      exact (min_eq_right far.le).symm
    · rename_i near
      exact (min_eq_left (not_lt.mp near)).symm
  unfold cornerRadii? cornerRadii
  dsimp only
  by_cases hx : 0 < rx
  · by_cases hy : 0 < ry
    · simp only [decide_eq_true hx, decide_eq_true hy, if_pos hx, if_pos hy, clamped]
    · simp only [decide_eq_true hx, decide_eq_false hy, if_pos hx, if_neg hy, clamped]
  · have hy := round.resolve_left hx
    simp only [decide_eq_false hx, decide_eq_true hy, if_neg hx, if_pos hy, clamped]

theorem cornerRadii_pos (hw : 0 < width) (hh : 0 < height) :
    0 < (cornerRadii rx ry width height).x ∧ 0 < (cornerRadii rx ry width height).y := by
  rw [cornerRadii, two_eq]
  refine ⟨lt_min ?_ (half_pos hw), lt_min ?_ (half_pos hh)⟩
  · split
    · assumption
    · rename_i hx
      exact round.resolve_left hx
  · split
    · assumption
    · rename_i hy
      exact round.resolve_right hy

variable (rx ry width height) in
omit round in
theorem two_mul_cornerRadii_le :
    2 * (cornerRadii rx ry width height).x ≤ width ∧
      2 * (cornerRadii rx ry width height).y ≤ height := by
  have x : (cornerRadii rx ry width height).x ≤ width / Scalar.two := min_le_right _ _
  have y : (cornerRadii rx ry width height).y ≤ height / Scalar.two := min_le_right _ _
  rw [two_eq] at x y
  exact ⟨by linarith, by linarith⟩

end CornerRadii

theorem shape?_eq_roundRect {e : Element} (kind : shapeKind? e = some .rect)
    (width : 0 < (lengthOf e "width" : ℝ)) (height : 0 < (lengthOf e "height" : ℝ))
    (round : 0 < (lengthOf e "rx" : ℝ) ∨ 0 < (lengthOf e "ry" : ℝ)) :
    let radii := cornerRadii (lengthOf e "rx") (lengthOf e "ry") (lengthOf e "width")
      (lengthOf e "height")
    shape? e = some (roundRect (lengthOf e "x") (lengthOf e "y") (lengthOf e "width")
      (lengthOf e "height") radii.x radii.y) := by
  have extent : ¬ ((lengthOf e "width" : ℝ) ≤ 0 ∨ (lengthOf e "height" : ℝ) ≤ 0) :=
    not_or.mpr ⟨width.not_ge, height.not_ge⟩
  intro radii
  rw [shape?, kind]
  show rectOutline? e = _
  rw [rectOutline?, if_neg extent, cornerRadii?_eq round]

/-- The path data of a rectangle with round corners draws four sides and four quarter turns, which
stay in the rectangle. -/
theorem curves_roundRect {write : ℝ → String} (exact : PrintsExactly write) {e : Element}
    (kind : shapeKind? e = some .rect) (width : 0 < (lengthOf e "width" : ℝ))
    (height : 0 < (lengthOf e "height" : ℝ))
    (round : 0 < (lengthOf e "rx" : ℝ) ∨ 0 < (lengthOf e "ry" : ℝ)) :
    ∃ data cs, writtenShape? write e = some data ∧ curves data = .ok cs ∧
      IsRoundRect (lengthOf e "x") (lengthOf e "y") (lengthOf e "width") (lengthOf e "height")
        (cornerRadii (lengthOf e "rx") (lengthOf e "ry") (lengthOf e "width") (lengthOf e "height"))
        cs := by
  obtain ⟨hx, hy⟩ := cornerRadii_pos round width height
  obtain ⟨wide, high⟩ := two_mul_cornerRadii_le (lengthOf e "rx") (lengthOf e "ry")
    (lengthOf e "width") (lengthOf e "height")
  obtain ⟨data, written, drawn⟩ :=
    curves_writtenShape? exact (shape?_eq_roundRect kind width height round)
  refine ⟨data, _, written, drawn, ?_⟩
  rw [draw_roundRect _ _ _ _ hx hy]
  exact isRoundRect_roundSides hx hy wide high

theorem curves_roundRect_rounded :
    ∃ data cs, writtenShape? printed roundedRect = some data ∧ curves data = .ok cs ∧
      IsRoundRect 0 0 10 4 ⟨3, 2⟩ cs := by
  have value (n : Nat) : ofLiteral (.ofNat n) = n := ofNat_eq n
  have x : (lengthOf roundedRect "x" : ℝ) = 0 := lengthOf_eq_zero rfl
  have y : (lengthOf roundedRect "y" : ℝ) = 0 := lengthOf_eq_zero rfl
  have width : (lengthOf roundedRect "width" : ℝ) = 10 :=
    (lengthOf_eq_ofLiteral rfl (by decide +kernel)).trans (value 10)
  have height : (lengthOf roundedRect "height" : ℝ) = 4 :=
    (lengthOf_eq_ofLiteral rfl (by decide +kernel)).trans (value 4)
  have rx : (lengthOf roundedRect "rx" : ℝ) = 3 :=
    (lengthOf_eq_ofLiteral rfl (by decide +kernel)).trans (value 3)
  have ry : (lengthOf roundedRect "ry" : ℝ) = 0 := lengthOf_eq_zero rfl
  have radii : cornerRadii 3 0 10 4 = ⟨3, 2⟩ := by
    norm_num [cornerRadii]
  have drawn := curves_roundRect printsExactly_printed (e := roundedRect) rfl
    (by rw [width]; norm_num) (by rw [height]; norm_num) (.inl (by rw [rx]; norm_num))
  rwa [x, y, width, height, rx, ry, radii] at drawn

/-! ## Ellipses -/

/-- The centre and the radii that the attributes of a circle or an ellipse give. -/
inductive HasAxes {α : Type} [Scalar α] (e : Element) : Point α → Point α → Prop
  | circle (kind : shapeKind? e = some .circle) :
    HasAxes e ⟨lengthOf e "cx", lengthOf e "cy"⟩ ⟨lengthOf e "r", lengthOf e "r"⟩
  | ellipse (kind : shapeKind? e = some .ellipse) :
    HasAxes e ⟨lengthOf e "cx", lengthOf e "cy"⟩ ⟨lengthOf e "rx", lengthOf e "ry"⟩

theorem shape?_of_hasAxes {α : Type} [Scalar α] {e : Element} {center radii : Point α}
    (h : HasAxes e center radii) :
    shape? e = ellipseOutline? center.x center.y radii.x radii.y := by
  cases h with
  | circle kind | ellipse kind =>
    rw [shape?, kind]
    rfl

/-- Without an extent there is no path data. -/
theorem writtenShape?_eq_none {α : Type} [Scalar α] (write : α → String) {e : Element}
    {center radii : Point α} (h : HasAxes e center radii) (flat : radii.x ≤ 0 ∨ radii.y ≤ 0) :
    writtenShape? write e = none := by
  rw [writtenShape?, shape?_of_hasAxes h, ellipseOutline?, if_pos flat]
  rfl

section Ellipse

variable (center radii : Point ℝ)

/-- What a circle or an ellipse draws: two half turns, through the points of the ellipse once. -/
structure IsFullTurn (cs : List (Curve ℝ)) : Prop where
  kinds : cs.map Curve.kind = [.arc, .arc]
  starts : cs.map Curve.start =
    [⟨center.x - radii.x, center.y⟩, ⟨center.x + radii.x, center.y⟩]
  finishes : cs.map Curve.finish =
    [⟨center.x + radii.x, center.y⟩, ⟨center.x - radii.x, center.y⟩]
  centers : (Curve.arcs cs).map Arc.center = [center, center]
  startAngles : (Curve.arcs cs).map Arc.startAngle = [Real.pi, 0]
  halves : ∀ a ∈ Curve.arcs cs, IsUpright radii Real.pi a
  onEllipse : ∀ c ∈ cs, ∀ t, Arc.OnEllipse center radii 0 (c.point t)
  once : ∀ p, Arc.OnEllipse center radii 0 p →
    ∃! place : Curve ℝ × ℝ, place.1 ∈ cs ∧ place.2 ∈ Set.Ico 0 1 ∧ place.1.point place.2 = p

/-- The two halves of an ellipse. -/
noncomputable def halves : List (Curve ℝ) :=
  [.arc (halfTurn center radii Real.pi), .arc (halfTurn center radii 0)]

variable {radii}

theorem arcs_halves :
    Curve.arcs (halves center radii) =
      [halfTurn center radii Real.pi, halfTurn center radii 0] := rfl

theorem mem_halves_iff {c : Curve ℝ} :
    c ∈ halves center radii ↔
      ∃ start, (start = Real.pi ∨ start = 0) ∧ c = .arc (halfTurn center radii start) := by
  simp [halves]

/-- An angle in the first turn lies in one half of it. -/
theorem existsUnique_half {angle : ℝ} (mem : angle ∈ Set.Ico 0 (2 * Real.pi)) :
    ∃! s : ℝ × ℝ, (s.1 = Real.pi ∨ s.1 = 0) ∧ s.2 ∈ Set.Ico 0 1 ∧
      s.1 + Real.pi * s.2 = angle := by
  have pi := Real.pi_pos
  refine existsUnique_of_exists_of_unique ?_ ?_
  · obtain ⟨start, one, after, before⟩ : ∃ start, (start = Real.pi ∨ start = 0) ∧
        start ≤ angle ∧ angle < start + Real.pi := by
      rcases lt_or_ge angle Real.pi with second | first
      · exact ⟨0, .inr rfl, mem.1, by linarith⟩
      · exact ⟨Real.pi, .inl rfl, first, by linarith [mem.2]⟩
    refine ⟨(start, (angle - start) / Real.pi), one,
      ⟨div_nonneg (sub_nonneg.mpr after) pi.le, (div_lt_one pi).mpr (by linarith)⟩, ?_⟩
    rw [mul_div_cancel₀ _ pi.ne', add_sub_cancel]
  · rintro ⟨start, t⟩ ⟨other, u⟩ ⟨one, ht, seen⟩ ⟨another, hu, again⟩
    have turned {t : ℝ} (ht : t ∈ Set.Ico (0 : ℝ) 1) : 0 ≤ Real.pi * t ∧ Real.pi * t < Real.pi :=
      ⟨mul_nonneg pi.le ht.1, mul_lt_of_lt_one_right pi ht.2⟩
    obtain rfl : start = other := by
      rcases one with rfl | rfl <;> rcases another with rfl | rfl <;>
        linarith [turned ht, turned hu]
    obtain rfl : t = u := mul_left_cancel₀ pi.ne' (by linarith)
    rfl

variable (hx : 0 < radii.x) (hy : 0 < radii.y)

include hx hy

theorem draw_ellipseOutline? :
    ∃ cs, ellipseOutline? center.x center.y radii.x radii.y = some cs ∧
      draw cs = halves center radii := by
  have pi := Real.pi_pos
  have extent : ¬ (radii.x ≤ 0 ∨ radii.y ≤ 0) := not_or.mpr ⟨hx.not_ge, hy.not_ge⟩
  refine ⟨_, if_neg extent, ?_⟩
  have first : Curve.ofArc? ⟨center.x - radii.x, center.y⟩ ⟨center.x + radii.x, center.y⟩
      (Arc.upright radii true true) = some (.arc (halfTurn center radii Real.pi)) :=
    Arc.ofArc?_uprightTurn center hx hy ⟨by linarith, le_rfl⟩ Arc.fitsSweep_half (by simp) (by simp)
  have second : Curve.ofArc? ⟨center.x + radii.x, center.y⟩ ⟨center.x - radii.x, center.y⟩
      (Arc.upright radii true true) = some (.arc (halfTurn center radii 0)) :=
    Arc.ofArc?_uprightTurn center hx hy ⟨by linarith, by linarith⟩ Arc.fitsSweep_half (by simp)
      (by simp)
  simp only [draw, Pen.trace, step_moveTo, step_arcTo, Pen.advance, first, second]
  rw [step_close _ rfl]
  rfl

/-- The half that begins at an angle is at the point with another angle when its sweep reaches that
angle. -/
theorem point_halfTurn_eq_iff {start t angle : ℝ} (one : start = Real.pi ∨ start = 0)
    (ht : t ∈ Set.Ico 0 1) (mem : angle ∈ Set.Ico 0 (2 * Real.pi)) :
    (Curve.arc (halfTurn center radii start)).point t =
        (Arc.upright radii true true).pointAt center (Arc.direction angle) ↔
      start + Real.pi * t = angle := by
  have range : start + Real.pi * t ∈ Set.Ico 0 (2 * Real.pi) := by
    have low : 0 ≤ Real.pi * t := mul_nonneg Real.pi_pos.le ht.1
    have high : Real.pi * t < Real.pi := mul_lt_of_lt_one_right Real.pi_pos ht.2
    rcases one with rfl | rfl <;> exact ⟨by linarith, by linarith⟩
  rw [Arc.point_uprightTurn, clampUnit_eq ht.1 ht.2.le]
  have bij := Arc.bijOn_pointAt_direction (Arc.upright radii true true) center hx.ne' hy.ne'
  exact bij.injOn.eq_iff range mem

/-- A point of an ellipse lies at one place of the two halves. -/
theorem existsUnique_place {p : Point ℝ} (h : Arc.OnEllipse center radii 0 p) :
    ∃! place : Curve ℝ × ℝ, place.1 ∈ halves center radii ∧ place.2 ∈ Set.Ico 0 1 ∧
      place.1.point place.2 = p := by
  rw [← Arc.radians_zero] at h
  obtain ⟨angle, mem, rfl⟩ :=
    (Arc.bijOn_pointAt_direction (Arc.upright radii true true) center hx.ne' hy.ne').surjOn h
  obtain ⟨⟨start, t⟩, ⟨one, ht, turned⟩, unique⟩ := existsUnique_half mem
  refine ⟨(.arc (halfTurn center radii start), t), ⟨(mem_halves_iff center).mpr ⟨start, one, rfl⟩,
    ht, (point_halfTurn_eq_iff center hx hy one ht mem).mpr turned⟩, ?_⟩
  rintro ⟨c, u⟩ ⟨half, hu, same⟩
  obtain ⟨other, another, rfl⟩ := (mem_halves_iff center).mp half
  have again := (point_halfTurn_eq_iff center hx hy another hu mem).mp same
  obtain ⟨rfl, rfl⟩ := Prod.mk.inj (unique (other, u) ⟨another, hu, again⟩)
  rfl

theorem isFullTurn_halves : IsFullTurn center radii (halves center radii) where
  kinds := rfl
  starts := by simp [halves, Curve.start, Transform.identity_apply]
  finishes := by simp [halves, Curve.finish, Transform.identity_apply]
  centers := rfl
  startAngles := rfl
  halves := by
    simp only [arcs_halves, List.forall_mem_cons, Arc.isUpright_uprightTurn, true_and]
    exact List.forall_mem_nil _
  onEllipse := by
    simp only [halves, List.forall_mem_cons]
    exact ⟨Arc.onEllipse_uprightTurn center _ _ _ hx hy,
      Arc.onEllipse_uprightTurn center _ _ _ hx hy, List.forall_mem_nil _⟩
  once _ := existsUnique_place center hx hy

end Ellipse

/-- The path data of a circle or an ellipse with positive radii draws two half turns. With another
radius there is no path data, and this holds of binary64 numbers too. -/
theorem curves_ellipse {write : ℝ → String} (exact : PrintsExactly write) (e : Element) :
    (∀ center radii : Point ℝ, HasAxes e center radii → 0 < radii.x → 0 < radii.y →
      ∃ data cs, writtenShape? write e = some data ∧ curves data = .ok cs ∧
        IsFullTurn center radii cs) ∧
    (∀ center radii : Point ℝ, HasAxes e center radii → radii.x ≤ 0 ∨ radii.y ≤ 0 →
      writtenShape? write e = none) ∧
    ∀ center radii : Point Float, HasAxes e center radii → radii.x ≤ 0 ∨ radii.y ≤ 0 →
      shapeData? e = none := by
  refine ⟨fun center radii axes hx hy => ?_, fun _ _ => writtenShape?_eq_none write,
    fun _ _ axes flat => ?_⟩
  · obtain ⟨cs, outline, drawn⟩ := draw_ellipseOutline? center hx hy
    obtain ⟨data, written, read⟩ :=
      curves_writtenShape? exact ((shape?_of_hasAxes axes).trans outline)
    refine ⟨data, _, written, read, ?_⟩
    rw [drawn]
    exact isFullTurn_halves center hx hy
  · rw [shapeData?_eq_writtenShape?]
    exact writtenShape?_eq_none numeral axes flat

/-- A circle. -/
def circle : Element :=
  ⟨"circle", none, [⟨none, "cx", "50"⟩, ⟨none, "cy", "50"⟩, ⟨none, "r", "10mm"⟩], []⟩

/-- An ellipse without an extent. -/
def flatEllipse : Element := ⟨"ellipse", none, [⟨none, "rx", "3"⟩], []⟩

theorem curves_ellipse_circle :
    (∃ data cs, writtenShape? printed circle = some data ∧ curves data = .ok cs ∧
      IsFullTurn ⟨50, 50⟩ ⟨10, 10⟩ cs) ∧
    writtenShape? printed flatEllipse = none ∧ shapeData? flatEllipse = none := by
  have value (n : Nat) : ofLiteral (.ofNat n) = n := ofNat_eq n
  have cx : (lengthOf circle "cx" : ℝ) = 50 :=
    (lengthOf_eq_ofLiteral rfl (by decide +kernel)).trans (value 50)
  have cy : (lengthOf circle "cy" : ℝ) = 50 :=
    (lengthOf_eq_ofLiteral rfl (by decide +kernel)).trans (value 50)
  have r : (lengthOf circle "r" : ℝ) = 10 :=
    (lengthOf_eq_ofLiteral rfl (by decide +kernel)).trans (value 10)
  have drawn := (curves_ellipse printsExactly_printed circle).1 _ _ (.circle rfl)
    (by rw [r]; norm_num) (by rw [r]; norm_num)
  rw [cx, cy, r] at drawn
  have none := (curves_ellipse printsExactly_printed flatEllipse).2
  have ry : (lengthOf flatEllipse "ry" : ℝ) = 0 := lengthOf_eq_zero rfl
  exact ⟨drawn, none.1 _ _ (.ellipse rfl) (.inr ry.le),
    none.2 _ _ (.ellipse rfl) (.inr (by decide +kernel))⟩

end LaserCut.Svg
