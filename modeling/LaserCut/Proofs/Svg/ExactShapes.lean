import LaserCut.Proofs.PathData.Exact
import LaserCut.Proofs.Svg.StraightShapes

/-!
# Path data of shapes without rounding

In exact arithmetic. The numbers of a shape are decimals, so that a printer that is exact loses
nothing.

* `writtenShape?`: the path data of a shape by the printer of its numbers;
* `allDecimal_of_shape?`: the numbers of a shape are decimals;
* `curves_writtenShape?`: exact path data of a shape draws what the commands of the shape draw;
* `lengthOf_eq_ofLiteral`, `lengthOf_eq_zero`: the lengths of a shape.
-/

namespace LaserCut.Svg

open Exact
open PathData (Command curves draw)

/-- The path data of a shape as a printer of numbers writes it. -/
def writtenShape? {α : Type} [Scalar α] (write : α → String) (e : Element) : Option String :=
  (shape? e).map (PathData.text write)

theorem shapeData?_eq_writtenShape? (e : Element) : shapeData? e = writtenShape? numeral e := rfl

/-- The numbers of path commands are decimals. -/
def AllDecimal (cs : List (Command ℝ)) : Prop :=
  ∀ c ∈ cs, ∀ x ∈ c.segment.numbers, x ∈ decimals

theorem lengthOf_mem_decimals (e : Element) (name : String) : lengthOf e name ∈ decimals := by
  unfold lengthOf
  rcases h : (e.attribute? name).bind (length? (α := ℝ)) with _ | value
  · exact zero_mem decimals
  · obtain ⟨text, -, h⟩ := Option.bind_eq_some_iff.mp h
    obtain ⟨literal, -, h⟩ := Option.bind_eq_some_iff.mp h
    obtain rfl : ofLiteral literal = value := Option.some.inj h
    exact ofLiteral_mem_decimals literal

theorem allDecimal_ellipse {cx cy rx ry : ℝ} (hx : cx ∈ decimals) (hy : cy ∈ decimals)
    (hrx : rx ∈ decimals) (hry : ry ∈ decimals) {cs : List (Command ℝ)}
    (h : ellipseOutline? cx cy rx ry = some cs) : AllDecimal cs := by
  unfold ellipseOutline? at h
  split at h
  · cases h
  · obtain rfl := Option.some.inj h
    simp [AllDecimal, moveTo, arcTo, close, PathData.Segment.numbers, add_mem, sub_mem, zero_mem, *]

theorem mem_decimals_of_cornerRadii? {rx ry width height : ℝ} (hrx : rx ∈ decimals)
    (hry : ry ∈ decimals) (hw : width ∈ decimals) (hh : height ∈ decimals) {radii : ℝ × ℝ}
    (h : cornerRadii? rx ry width height = some radii) :
    radii.1 ∈ decimals ∧ radii.2 ∈ decimals := by
  have clamped {r side : ℝ} (hr : r ∈ decimals) (hs : side ∈ decimals) :
      (if side / Scalar.two < r then side / Scalar.two else r) ∈ decimals := by
    rw [two_eq]
    split
    · exact half_mem_decimals hs
    · exact hr
  unfold cornerRadii? at h
  dsimp only at h
  split at h
  · cases h
  · obtain rfl := Option.some.inj h
    exact ⟨clamped hrx hw, clamped hrx hh⟩
  · obtain rfl := Option.some.inj h
    exact ⟨clamped hry hw, clamped hry hh⟩
  · obtain rfl := Option.some.inj h
    exact ⟨clamped hrx hw, clamped hry hh⟩

theorem allDecimal_rect {e : Element} {cs : List (Command ℝ)} (h : rectOutline? e = some cs) :
    AllDecimal cs := by
  have hx := lengthOf_mem_decimals e "x"
  have hy := lengthOf_mem_decimals e "y"
  have hw := lengthOf_mem_decimals e "width"
  have hh := lengthOf_mem_decimals e "height"
  unfold rectOutline? at h
  dsimp only at h
  split at h
  · cases h
  · split at h
    · obtain rfl := Option.some.inj h
      simp [AllDecimal, sharpRect, moveTo, lineTo, close, PathData.Segment.numbers, add_mem, *]
    · rename_i radii
      obtain ⟨hrx, hry⟩ := mem_decimals_of_cornerRadii? (lengthOf_mem_decimals e "rx")
        (lengthOf_mem_decimals e "ry") hw hh radii
      dsimp only at hrx hry
      obtain rfl := Option.some.inj h
      simp [AllDecimal, roundRect, moveTo, lineTo, arcTo, close, PathData.Segment.numbers, add_mem,
        sub_mem, zero_mem, *]

theorem allDecimal_poly {s : String} {points : List (Point ℝ)} (read : points? s = some points)
    {closed : Bool} {cs : List (Command ℝ)} (h : polyOutline? points closed = some cs) :
    AllDecimal cs := by
  obtain ⟨literals, -, pairs⟩ := Option.bind_eq_some_iff.mp read
  have decimal : ∀ x ∈ coordinates points, x ∈ decimals := by
    rw [coordinates_of_pairs? pairs]
    exact List.forall_mem_map.mpr fun literal _ => ofLiteral_mem_decimals literal
  simp only [coordinates, List.forall_mem_flatMap, List.forall_mem_cons, List.not_mem_nil,
    false_implies, implies_true, and_true] at decimal
  unfold polyOutline? at h
  split at h
  · obtain rfl := Option.some.inj h
    exact forall_numbers_lineRun.mpr decimal
  · cases h

/-- The numbers of a shape are decimals. -/
theorem allDecimal_of_shape? {e : Element} {cs : List (Command ℝ)} (h : shape? e = some cs) :
    AllDecimal cs := by
  have length := lengthOf_mem_decimals e
  obtain ⟨kind, -, h⟩ := Option.bind_eq_some_iff.mp h
  cases kind with
  | circle => exact allDecimal_ellipse (length "cx") (length "cy") (length "r") (length "r") h
  | ellipse => exact allDecimal_ellipse (length "cx") (length "cy") (length "rx") (length "ry") h
  | rect => exact allDecimal_rect h
  | line =>
    obtain rfl := Option.some.inj h
    simp [AllDecimal, moveTo, lineTo, PathData.Segment.numbers, length]
  | polyline | polygon =>
    obtain ⟨points, read, h⟩ := Option.bind_eq_some_iff.mp h
    obtain ⟨s, -, read⟩ := Option.bind_eq_some_iff.mp read
    exact allDecimal_poly read h

/-- Exact path data of a shape draws what the commands of the shape draw. -/
theorem curves_writtenShape? {write : ℝ → String} (exact : PrintsExactly write) {e : Element}
    {cs : List (Command ℝ)} (outline : shape? e = some cs) :
    ∃ data, writtenShape? write e = some data ∧ curves data = .ok (draw cs) := by
  refine ⟨PathData.text write cs, ?_, ?_⟩
  · rw [writtenShape?, outline]
    rfl
  · exact exact.curves_text (verb_eq_moveTo_of_shape? outline) (allDecimal_of_shape? outline)

/-! ## Lengths -/

/-- The value of a length attribute that is one literal, apart from its unit. -/
theorem lengthOf_eq_ofLiteral {e : Element} {name s : String} {l : Literal}
    (attr : e.attribute? name = some s)
    (read : Literal.ofChars? (Text.trim (dropUnit (Text.trim s.toList))) = some l) :
    lengthOf e name = ofLiteral l := by
  rw [lengthOf, attr, Option.bind_some, length?, read]
  rfl

theorem lengthOf_eq_zero {α : Type} [Scalar α] {e : Element} {name : String}
    (attr : e.attribute? name = none) : lengthOf e name = (0 : α) := by
  rw [lengthOf, attr]
  rfl

end LaserCut.Svg
