import LaserCut.Proofs.Binary64.Finite
import LaserCut.Proofs.Decimal.Numerals
import LaserCut.Proofs.PathData.Written
import LaserCut.Svg.Shape

/-!
# The path data of shapes

Whether path data that a shape is turned into is path data, and which.

* `legible_numeral`: the numbers that are written as numerals are the finite ones;
* `exists_moveTo_of_shape?`: the commands of a shape begin with a move;
* `parse_shapeData`: the path data is read as the commands of the shape if their numbers are finite,
  and is refused if not;
* `allFinite_line`, `allFinite_ellipse`: lengths are finite, so that only sums of them may not be.

Lists of points may have numbers that are not finite, so that not all path data of shapes can be
read (`not_parse_shapeData`).
-/

namespace LaserCut.Svg

open PathData (Command Segment parse)

/-! ## Numbers -/

/-- The literal that a number of path data writes. -/
def numeralValue (x : Float) : Literal :=
  if x == 0 then .decimal false 0 0 else Decimal.shown x

theorem isFinite_of_beq_zero {x : Float} (h : (x == 0) = true) : x.isFinite = true := by
  have equal : x.toModel.unpack.compare (0 : Float).toModel.unpack = some .eq := beq_iff_eq.mp h
  show x.toModel.unpack.isFinite = true
  revert equal
  cases x.toModel.unpack with
  | notANumber => exact nofun
  | infinity s => cases s <;> exact nofun
  | zero | finite => exact fun _ => rfl

/-- The texts of the numbers that are not finite do not begin with a number. -/
theorem word_of_mem_specials {text : String} (h : text ∈ Decimal.specials) (tail : List Char) :
    Literal.read (text.toList ++ tail) = none ∧
      PathData.skipSeparators (text.toList ++ tail) = text.toList ++ tail := by
  simp only [Decimal.specials, List.mem_cons, List.not_mem_nil, or_false] at h
  rcases h with rfl | rfl | rfl
  · exact ⟨rfl, rfl⟩
  · exact ⟨rfl, rfl⟩
  · exact ⟨rfl, rfl⟩

/-- The numbers of path data are numerals if they are finite, and words if not. -/
theorem legible_numeral : PathData.Legible numeral (·.isFinite = true) numeralValue where
  numeral x finite := by
    unfold numeral numeralValue
    split
    · exact Decimal.exists_numeral_whole false 0 0
    · exact Decimal.exists_numeral_shortest finite
  word x infinite tail := by
    have infinite : x.isFinite = false := Bool.eq_false_iff.mpr infinite
    have special : Decimal.shortest x ∈ Decimal.specials :=
      (Decimal.isPrinted_shortest x).mem_specials_iff.mpr infinite
    have nonzero : ¬ (x == 0) = true := fun h =>
      Bool.false_ne_true (infinite.symm.trans (isFinite_of_beq_zero h))
    rw [numeral, if_neg nonzero]
    exact word_of_mem_specials special tail

/-! ## Outlines -/

section Outlines

variable {α : Type} [Scalar α]

theorem exists_moveTo_of_ellipse {cx cy rx ry : α} {cs : List (Command α)}
    (h : ellipseOutline? cx cy rx ry = some cs) : ∃ x y rest, cs = moveTo x y :: rest := by
  unfold ellipseOutline? at h
  split at h
  · cases h
  · obtain rfl := Option.some.inj h
    exact ⟨_, _, _, rfl⟩

theorem exists_moveTo_of_rect {e : Element} {cs : List (Command α)}
    (h : rectOutline? e = some cs) : ∃ x y rest, cs = moveTo x y :: rest := by
  unfold rectOutline? at h
  dsimp only at h
  split at h
  · cases h
  · split at h
    · obtain rfl := Option.some.inj h
      exact ⟨_, _, _, rfl⟩
    · obtain rfl := Option.some.inj h
      exact ⟨_, _, _, rfl⟩

omit [Scalar α] in
theorem exists_moveTo_of_poly {points : List (Point α)} {closed : Bool} {cs : List (Command α)}
    (h : polyOutline? points closed = some cs) : ∃ x y rest, cs = moveTo x y :: rest := by
  unfold polyOutline? at h
  split at h
  · obtain rfl := Option.some.inj h
    exact ⟨_, _, _, rfl⟩
  · cases h

/-- The commands of a shape begin with a move. -/
theorem exists_moveTo_of_shape? {e : Element} {cs : List (Command α)} (h : shape? e = some cs) :
    ∃ x y rest, cs = moveTo x y :: rest := by
  unfold shape? at h
  obtain ⟨kind, -, h⟩ := Option.bind_eq_some_iff.mp h
  cases kind with
  | circle | ellipse => exact exists_moveTo_of_ellipse h
  | rect => exact exists_moveTo_of_rect h
  | line =>
    obtain rfl := Option.some.inj h
    exact ⟨_, _, _, rfl⟩
  | polyline | polygon =>
    obtain ⟨points, -, h⟩ := Option.bind_eq_some_iff.mp h
    exact exists_moveTo_of_poly h

theorem verb_eq_moveTo_of_shape? {e : Element} {cs : List (Command α)} (h : shape? e = some cs) :
    ∀ c ∈ cs.head?, c.segment.verb = .moveTo := by
  obtain ⟨x, y, rest, rfl⟩ := exists_moveTo_of_shape? h
  rintro c ⟨⟩
  rfl

end Outlines

/-- The numbers of path commands are finite. -/
def AllFinite (cs : List (Command Float)) : Prop :=
  ∀ c ∈ cs, ∀ x ∈ c.segment.numbers, x.isFinite = true

/-- A length is finite, and so is the zero that stands for a missing one. -/
theorem isFinite_lengthOf (e : Element) (name : String) :
    (lengthOf e name : Float).isFinite = true := by
  unfold lengthOf
  rcases h : (e.attribute? name).bind (length? (α := Float)) with _ | value
  · rfl
  · obtain ⟨text, -, h⟩ := Option.bind_eq_some_iff.mp h
    unfold length? at h
    obtain ⟨literal, -, h⟩ := Option.bind_eq_some_iff.mp h
    obtain ⟨⟨⟩, finite, h⟩ := Option.bind_eq_some_iff.mp h
    obtain rfl := Option.some.inj h
    show Scalar.isFinite (Scalar.ofLiteral literal : Float) = true
    simpa [guard] using finite

/-- The numbers of a line are lengths. -/
theorem allFinite_line {e : Element} {cs : List (Command Float)}
    (kind : shapeKind? e = some .line) (h : shape? e = some cs) : AllFinite cs := by
  have outline : shape? e = some
      [moveTo (lengthOf e "x1" : Float) (lengthOf e "y1"),
        lineTo (lengthOf e "x2") (lengthOf e "y2")] := by
    rw [shape?, kind]
    rfl
  obtain rfl := Option.some.inj (h.symm.trans outline)
  simp [AllFinite, moveTo, lineTo, PathData.Segment.numbers, isFinite_lengthOf]

/-- The numbers of an ellipse are lengths but for the ends of its axis. -/
theorem allFinite_ellipse {cx cy rx ry : Float} {cs : List (Command Float)}
    (lengths : cy.isFinite = true ∧ rx.isFinite = true ∧ ry.isFinite = true)
    (h : ellipseOutline? cx cy rx ry = some cs) :
    AllFinite cs ↔ (cx - rx).isFinite = true ∧ (cx + rx).isFinite = true := by
  obtain ⟨hcy, hrx, hry⟩ := lengths
  unfold ellipseOutline? at h
  split at h
  · cases h
  · obtain rfl := Option.some.inj h
    simp only [AllFinite, moveTo, arcTo, close, PathData.Segment.numbers, List.forall_mem_cons,
      hcy, hrx, hry, true_and]
    have last : ∀ x ∈ ([] : List Float), x.isFinite = true :=
      fun _ hx => absurd hx List.not_mem_nil
    refine ⟨fun h => ⟨h.1.1, h.2.1.2.1⟩, fun h => ?_⟩
    exact ⟨⟨h.1, last⟩, ⟨rfl, h.2, last⟩, ⟨rfl, h.1, last⟩, last,
      fun _ hc => absurd hc List.not_mem_nil⟩

/-- The path data of a shape is read as the shape's commands if their numbers are finite, and is
refused for want of a number if not. -/
theorem parse_shapeData {e : Element} {data : String} (h : shapeData? e = some data) :
    ∃ cs : List (Command Float), shape? e = some cs ∧
      (AllFinite cs → parse data = .ok (cs.map (Command.map numeralValue))) ∧
      (¬ AllFinite cs →
        ∃ command offset, parse data = .error (.expectedNumber command offset)) := by
  obtain ⟨cs, outline, rfl⟩ := Option.map_eq_some_iff.mp h
  have first := verb_eq_moveTo_of_shape? outline
  exact ⟨cs, outline, PathData.parse_text legible_numeral first,
    PathData.parse_text_error legible_numeral first⟩

/-- A rectangle with round corners. -/
def roundedRect : Element :=
  ⟨"rect", none, [⟨none, "width", "10"⟩, ⟨none, "height", "4"⟩, ⟨none, "rx", "3"⟩], []⟩

theorem parse_shapeData_rounded :
    ∃ data cs, shapeData? roundedRect = some data ∧ shape? roundedRect = some cs ∧
      AllFinite cs ∧ parse data = .ok (cs.map (Command.map numeralValue)) := by
  obtain ⟨data, h⟩ : ∃ data, shapeData? roundedRect = some data :=
    Option.isSome_iff_exists.mp (by decide +kernel)
  obtain ⟨cs, outline, read, -⟩ := parse_shapeData h
  have finite : (shape? roundedRect).map
      (·.all fun c => c.segment.numbers.all Float.isFinite) = some true := by
    decide +kernel
  rw [outline] at finite
  have finite : AllFinite cs := fun c hc x hx =>
    List.all_eq_true.mp (List.all_eq_true.mp (Option.some.inj finite) c hc) x hx
  exact ⟨data, cs, h, outline, finite, read finite⟩

/-- A run of lines from a point that is not finite. -/
def endlessPolyline : Element := ⟨"polyline", none, [⟨none, "points", "inf,0 1,1"⟩], []⟩

/-- Not all path data of shapes can be read. -/
theorem not_parse_shapeData :
    ¬ ∀ (e : Element) (data : String), shapeData? e = some data → (parse data).isOk = true := by
  intro claim
  have data : shapeData? endlessPolyline = some "M inf,0 L 1,1" := by decide +kernel
  have refused : (parse "M inf,0 L 1,1").isOk = false := by decide +kernel
  exact Bool.false_ne_true (refused.symm.trans (claim _ _ data))

end LaserCut.Svg
