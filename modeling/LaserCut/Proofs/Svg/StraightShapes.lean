import LaserCut.PathData.Outline
import LaserCut.Proofs.Binary64.Zero
import LaserCut.Proofs.Decimal.RoundTrip
import LaserCut.Proofs.Svg.ShapeData

/-!
# Shapes with straight sides

What the path data of a line, a rectangle with sharp corners, a polyline or a polygon draws: the
sides between its vertices, in order.

* `curves_shapeData`: path data draws what the commands of the shape draw;
* `sides`, `draw_lineRun`: the sides of a run of lines, which may be closed, and that these are what
  it draws;
* `points?_eq_some_iff`: the points that are read from a text are those that it lists;
* `HasVertices`: the vertices that the attributes of a shape give;
* `shapeData?_draws_sides`: the path data of such a shape draws the sides between its vertices, and
  a list that is no list of points gives none.

Path data has no sign on a zero, and the pen adds each point to the origin, so a side ends where its
vertex is but for the signs of zeros (`Joins`).
-/

namespace LaserCut.Svg

open Binary64 (plain)
open Outcome (mapM_eq_some_iff)
open PathData (Command Segment Pen curves draw parse)

/-! ## Numbers of path data -/

/-- The numbers of path data are read back, but for the signs of zeros. -/
theorem ofLiteral_numeralValue {x : Float} (h : x.isFinite = true) :
    Binary64.ofLiteral (numeralValue x) = plain x := by
  unfold numeralValue plain
  split
  · decide +kernel
  · exact Decimal.ofLiteral_shown h

section ShapeData

variable {e : Element} {cs : List (Command Float)} (outline : shape? e = some cs)

include outline

theorem shapeData?_of_shape? : shapeData? e = some (PathData.text numeral cs) := by
  rw [shapeData?, outline]
  rfl

/-- Path data of a shape with finite numbers draws what the commands of the shape draw, with zeros
that have no sign. -/
theorem curves_shapeData (finite : AllFinite cs) :
    ∃ data, shapeData? e = some data ∧ curves data = .ok (draw (cs.map (Command.map plain))) :=
  ⟨_, shapeData?_of_shape? outline,
    PathData.curves_text legible_numeral (verb_eq_moveTo_of_shape? outline) finite
      fun c hc x hx => ofLiteral_numeralValue (finite c hc x hx)⟩

/-- Path data of a shape with a number that is not finite cannot be read. -/
theorem curves_shapeData_error (infinite : ¬ AllFinite cs) :
    ∃ data command offset, shapeData? e = some data ∧
      curves data = (.error (.expectedNumber command offset) : Except _ (List (Curve Float))) := by
  obtain ⟨command, offset, refused⟩ :=
    PathData.parse_text_error legible_numeral (verb_eq_moveTo_of_shape? outline) infinite
  refine ⟨_, command, offset, shapeData?_of_shape? outline, ?_⟩
  rw [curves, refused]
  rfl

end ShapeData

/-! ## Sides -/

section Sides

variable {α : Type} [Scalar α]

/-- The sides of a run of lines: from each point to the next, and back to the first one if the run
is closed and does not end there. -/
def sides (closed : Bool) : List (Point α) → List (Point α × Point α)
  | [] => []
  | p :: rest =>
    (p :: rest).zip rest ++
      if closed && !(rest.getLastD p).same p then [(rest.getLastD p, p)] else []

theorem sides_map {f : Point α → Point α} (h : ∀ p q, (f p).same (f q) = p.same q) (closed : Bool)
    (points : List (Point α)) :
    sides closed (points.map f) = (sides closed points).map (Prod.map f f) := by
  cases points with
  | nil => rfl
  | cons p rest =>
    have last : (rest.map f).getLastD (f p) = f (rest.getLastD p) := by
      rw [List.getLastD_eq_getLast?, List.getLastD_eq_getLast?, List.getLast?_map]
      cases rest.getLast? <;> rfl
    rw [List.map_cons, sides, sides, last, h, List.map_append, ← List.map_cons, List.zip_map]
    split <;> rfl

theorem mem_of_mem_sides {closed : Bool} {points : List (Point α)} {s : Point α × Point α}
    (h : s ∈ sides closed points) : s.1 ∈ points ∧ s.2 ∈ points := by
  cases points with
  | nil => cases h
  | cons p rest =>
    rcases List.mem_append.mp h with inner | closing
    · exact ⟨(List.of_mem_zip inner).1, List.mem_cons_of_mem _ (List.of_mem_zip inner).2⟩
    · split at closing
      · obtain rfl := List.mem_singleton.mp closing
        refine ⟨?_, List.mem_cons_self⟩
        rw [List.getLastD_eq_getLast?]
        rcases hl : rest.getLast? with _ | q
        · exact List.mem_cons_self
        · exact List.mem_cons_of_mem _ (List.mem_of_getLast? hl)
      · cases closing

/-- The commands of a run of lines. -/
def lineRun (closed : Bool) (p : Point α) (rest : List (Point α)) : List (Command α) :=
  moveTo p.x p.y :: (rest.map (fun r => lineTo r.x r.y) ++ if closed then [close] else [])

omit [Scalar α] in
/-- The outline of two points or more is a run of lines. -/
theorem exists_lineRun {points : List (Point α)} (two : 2 ≤ points.length) (closed : Bool) :
    ∃ p rest, points = p :: rest ∧ polyOutline? points closed = some (lineRun closed p rest) := by
  match points, two with
  | p :: q :: rest, _ => exact ⟨p, q :: rest, rfl, rfl⟩

end Sides

theorem map_lineRun {μ ν : Type} (g : μ → ν) (closed : Bool) (p : Point μ) (rest : List (Point μ)) :
    (lineRun closed p rest).map (Command.map g) =
      lineRun closed (p.map g) (rest.map (Point.map g)) := by
  rw [lineRun, List.map_cons, List.map_append, List.map_map, lineRun, List.map_map]
  cases closed <;> rfl

/-- The numbers of a run of lines are the coordinates of its points. -/
theorem forall_numbers_lineRun {ν : Type} {good : ν → Prop} {closed : Bool} {p : Point ν}
    {rest : List (Point ν)} :
    (∀ c ∈ lineRun closed p rest, ∀ x ∈ c.segment.numbers, good x) ↔
      ∀ q ∈ p :: rest, good q.x ∧ good q.y := by
  have closing : ∀ c ∈ if closed then [close] else [], ∀ x ∈ c.segment.numbers, good x := by
    cases closed <;> simp [close, Segment.numbers]
  have lines : (∀ c ∈ rest.map fun r => lineTo r.x r.y, ∀ x ∈ c.segment.numbers, good x) ↔
      ∀ q ∈ rest, good q.x ∧ good q.y := by
    simp [lineTo, Segment.numbers]
  rw [lineRun, List.forall_mem_cons, List.forall_mem_append, List.forall_mem_cons]
  refine and_congr ?_ ((and_iff_left closing).trans lines)
  simp [moveTo, Segment.numbers]

theorem allFinite_lineRun {closed : Bool} {p : Point Float} {rest : List (Point Float)} :
    AllFinite (lineRun closed p rest) ↔ ∀ q ∈ p :: rest, q.IsFinite :=
  forall_numbers_lineRun

theorem origin_add (p : Point Float) : Point.origin + p = p.map plain :=
  congrArg₂ Point.mk (Binary64.zero_add_eq_plain p.x) (Binary64.zero_add_eq_plain p.y)

theorem draw_moveTo (p : Point Float) (more : List (Command Float)) :
    draw (moveTo p.x p.y :: more) = Pen.trace ⟨p.map plain, p.map plain, .none⟩ more := by
  rw [← origin_add p]
  rfl

/-- Lines from the current point on. -/
theorem trace_lines (more : List (Command Float)) (points : List (Point Float)) :
    ∀ pen : Pen Float, ∃ control,
      pen.trace (points.map (fun r => lineTo r.x r.y) ++ more) =
        ((pen.current :: points.map (Point.map plain)).zip (points.map (Point.map plain))).map
            (fun s => .line s.1 s.2) ++
          Pen.trace ⟨(points.map (Point.map plain)).getLastD pen.current, pen.subpathStart, control⟩
            more := by
  induction points with
  | nil => exact fun pen => ⟨pen.control, rfl⟩
  | cons p points ih =>
    intro pen
    obtain ⟨control, rest⟩ := ih (pen.advance (p.map plain) .none)
    have step : pen.step (lineTo p.x p.y) =
        (pen.advance (p.map plain) .none, some (.line pen.current (p.map plain))) := by
      rw [← origin_add p]
      rfl
    refine ⟨control, ?_⟩
    rw [List.map_cons, List.cons_append, Pen.trace, step]
    show Curve.line pen.current (p.map plain) :: _ = _
    rw [rest, List.map_cons, List.getLastD_cons]
    rfl

theorem trace_close (closed : Bool) (pen : Pen Float) :
    pen.trace (if closed then [close] else []) =
      if closed && !pen.current.same pen.subpathStart then [.line pen.current pen.subpathStart]
      else [] := by
  cases closed with
  | false => rfl
  | true =>
    show (if pen.current.same pen.subpathStart then none else _ : Option _).toList ++ [] = _
    cases pen.current.same pen.subpathStart <;> rfl

/-- A run of lines draws its sides. -/
theorem draw_lineRun (closed : Bool) (p : Point Float) (rest : List (Point Float)) :
    draw (lineRun closed p rest) =
      (sides closed ((p :: rest).map (Point.map plain))).map fun s => .line s.1 s.2 := by
  obtain ⟨control, lines⟩ := trace_lines (if closed then [close] else []) rest
    ⟨p.map plain, p.map plain, .none⟩
  rw [lineRun, draw_moveTo, lines, trace_close, List.map_cons, sides, List.map_append]
  split <;> rfl

/-! ## Lists of points -/

/-- The fields of a list of points. -/
def pointFields (s : String) : List (List Char) := Text.fields Text.isListSeparator s.toList

/-- The numbers of points in a row. -/
def coordinates {ν : Type} (points : List (Point ν)) : List ν := points.flatMap fun p => [p.x, p.y]

/-- A list of points: its fields are numbers, two for each point. -/
def ListsPoints (s : String) (points : List (Point Literal)) : Prop :=
  List.Forall₂ (fun field l => Literal.ofChars? field = some l) (pointFields s) (coordinates points)

section Lists

variable {μ ν : Type} {f : μ → Option ν} {xs : List μ}

theorem forall_mem_iff_of_forall₂ {ys : List ν} {p : ν → Prop}
    (h : List.Forall₂ (fun x y => f x = some y) xs ys) :
    (∀ y ∈ ys, p y) ↔ ∀ x ∈ xs, ∃ y, f x = some y ∧ p y := by
  induction h with
  | nil => simp
  | cons first _ ih => simp [first, ih]

theorem length_coordinates (points : List (Point ν)) :
    (coordinates points).length = 2 * points.length := by
  induction points with
  | nil => rfl
  | cons p points ih => exact congrArg (· + 2) ih

theorem pairs?_coordinates (points : List (Point ν)) :
    pairs? (coordinates points) = some points := by
  induction points with
  | nil => rfl
  | cons p points ih => exact congrArg (Option.map (p :: ·)) ih

theorem coordinates_of_pairs? : ∀ {xs : List ν} {points : List (Point ν)},
    pairs? xs = some points → coordinates points = xs
  | [], _, h => by
    obtain rfl := Option.some.inj h
    rfl
  | x :: y :: rest, _, h => by
    obtain ⟨points, pairs, rfl⟩ := Option.map_eq_some_iff.mp h
    exact congrArg (x :: y :: ·) (coordinates_of_pairs? pairs)

theorem pairs?_map (g : μ → ν) : ∀ xs : List μ,
    pairs? (xs.map g) = (pairs? xs).map (List.map (Point.map g))
  | [] => rfl
  | [_] => rfl
  | x :: y :: rest => by
    show (pairs? (rest.map g)).map _ = ((pairs? rest).map _).map _
    rw [pairs?_map g rest, Option.map_map, Option.map_map]
    rfl

end Lists

/-- The fields of a list of points are numbers. -/
theorem ListsPoints.exists_literal {s : String} {points : List (Point Literal)}
    (h : ListsPoints s points) : ∀ field ∈ pointFields s, ∃ l, Literal.ofChars? field = some l :=
  ((List.forall₂_and_left _ _).mp (h.imp fun _ l read => ⟨⟨l, read⟩, read⟩)).1

/-- A field of a list of points is a finite number. -/
def IsFiniteField (field : List Char) : Prop :=
  ∃ l, Literal.ofChars? field = some l ∧ (Binary64.ofLiteral l).isFinite = true

/-- The points of a list are finite if its fields are finite numbers. -/
theorem ListsPoints.forall_isFinite_iff {s : String} {points : List (Point Literal)}
    (h : ListsPoints s points) :
    (∀ p ∈ points.map (Point.map Binary64.ofLiteral), p.IsFinite) ↔
      ∀ field ∈ pointFields s, IsFiniteField field := by
  unfold IsFiniteField
  rw [← forall_mem_iff_of_forall₂ h]
  simp only [coordinates, List.forall_mem_map, List.forall_mem_flatMap, List.forall_mem_cons,
    List.not_mem_nil, false_implies, implies_true, and_true]
  rfl

/-- The points that are read from a text are those that it lists. -/
theorem points?_eq_some_iff {s : String} {vertices : List (Point Float)} :
    points? s = some vertices ↔
      ∃ points, ListsPoints s points ∧ points.map (Point.map Binary64.ofLiteral) = vertices := by
  have read : points? s = ((pointFields s).mapM Literal.ofChars?).bind fun literals =>
      (pairs? literals).map (List.map (Point.map Binary64.ofLiteral)) :=
    Option.bind_congr fun literals _ => pairs?_map Binary64.ofLiteral literals
  rw [read, Option.bind_eq_some_iff]
  constructor
  · rintro ⟨literals, fields, h⟩
    obtain ⟨points, pairs, rfl⟩ := Option.map_eq_some_iff.mp h
    obtain rfl := coordinates_of_pairs? pairs
    exact ⟨points, mapM_eq_some_iff.mp fields, rfl⟩
  · rintro ⟨points, listed, rfl⟩
    refine ⟨coordinates points, mapM_eq_some_iff.mpr listed, ?_⟩
    rw [pairs?_coordinates]
    rfl

/-! ## Vertices -/

/-- The corners of a rectangle, from the first one around. -/
def corners (x y width height : Float) : List (Point Float) :=
  [⟨x, y⟩, ⟨x + width, y⟩, ⟨x + width, y + height⟩, ⟨x, y + height⟩]

/-- The shape of a list of points: a polygon if it is closed, and else a polyline. -/
def polyKind (closed : Bool) : ShapeKind := if closed then .polygon else .polyline

/-- The vertices that the attributes of a shape give, and whether its sides close. -/
inductive HasVertices (e : Element) : Bool → List (Point Float) → Prop
  | line (kind : shapeKind? e = some .line) :
    HasVertices e false
      [⟨lengthOf e "x1", lengthOf e "y1"⟩, ⟨lengthOf e "x2", lengthOf e "y2"⟩]
  | rect (kind : shapeKind? e = some .rect) (width : (0 : Float) < lengthOf e "width")
    (height : (0 : Float) < lengthOf e "height") (rx : ¬ (0 : Float) < lengthOf e "rx")
    (ry : ¬ (0 : Float) < lengthOf e "ry") :
    HasVertices e true
      (corners (lengthOf e "x") (lengthOf e "y") (lengthOf e "width") (lengthOf e "height"))
  | poly {closed : Bool} (kind : shapeKind? e = some (polyKind closed)) {s : String}
    (attr : e.attribute? "points" = some s) {points : List (Point Literal)}
    (listed : ListsPoints s points) (two : 2 ≤ points.length) :
    HasVertices e closed (points.map (Point.map Binary64.ofLiteral))

/-- A rectangle with an extent and without positive radii has sharp corners. -/
theorem rectOutline?_eq_sharpRect {α : Type} [Scalar α] {e : Element}
    (extent : ¬ (lengthOf e "width" ≤ (0 : α) ∨ lengthOf e "height" ≤ (0 : α)))
    (rx : ¬ (0 : α) < lengthOf e "rx") (ry : ¬ (0 : α) < lengthOf e "ry") :
    rectOutline? e = some (sharpRect (lengthOf e "x" : α) (lengthOf e "y") (lengthOf e "width")
      (lengthOf e "height")) := by
  rw [rectOutline?, if_neg extent, cornerRadii?, decide_eq_false rx, decide_eq_false ry]

theorem shape?_poly {e : Element} {closed : Bool} (kind : shapeKind? e = some (polyKind closed))
    {s : String} (attr : e.attribute? "points" = some s) :
    shape? e = (points? s).bind fun vertices => polyOutline? (α := Float) vertices closed := by
  rw [shape?, kind, attr]
  cases closed <;> rfl

theorem shape?_of_hasVertices {e : Element} {closed : Bool} {vertices : List (Point Float)}
    (h : HasVertices e closed vertices) :
    shape? e = polyOutline? vertices closed ∧ 2 ≤ vertices.length := by
  cases h with
  | line kind =>
    refine ⟨?_, Nat.le_refl 2⟩
    rw [shape?, kind]
    rfl
  | rect kind width height rx ry =>
    refine ⟨?_, Nat.le_add_left 2 2⟩
    have extent : ¬ ((lengthOf e "width" : Float) ≤ 0 ∨ (lengthOf e "height" : Float) ≤ 0) :=
      not_or.mpr ⟨Binary64.not_le_zero width, Binary64.not_le_zero height⟩
    rw [shape?, kind]
    exact rectOutline?_eq_sharpRect extent rx ry
  | poly kind attr listed two =>
    refine ⟨?_, (List.length_map _).symm ▸ two⟩
    rw [shape?_poly kind attr, points?_eq_some_iff.mpr ⟨_, listed, rfl⟩]
    rfl

/-- The curve is a line that joins the ends of a side, but for the signs of zeros. -/
def Joins (c : Curve Float) (s : Point Float × Point Float) : Prop :=
  ∃ p q, c = .line p q ∧ p.same s.1 = true ∧ q.same s.2 = true

theorem same_plain_plain (p q : Point Float) :
    (p.map plain).same (q.map plain) = p.same q :=
  congrArg₂ and (Binary64.plain_beq_plain p.x q.x) (Binary64.plain_beq_plain p.y q.y)

theorem same_plain {p : Point Float} (h : p.IsFinite) : (p.map plain).same p = true :=
  Bool.and_eq_true_iff.mpr ⟨Binary64.plain_beq (Binary64.isNaN_of_isFinite h.1),
    Binary64.plain_beq (Binary64.isNaN_of_isFinite h.2)⟩

/-- The curves of a run of lines join the ends of its sides. -/
theorem joins_sides {vertices : List (Point Float)} (finite : ∀ p ∈ vertices, p.IsFinite)
    (closed : Bool) :
    List.Forall₂ Joins
      ((sides closed (vertices.map (Point.map plain))).map fun s => .line s.1 s.2)
      (sides closed vertices) := by
  rw [sides_map same_plain_plain, List.map_map, List.forall₂_map_left_iff, List.forall₂_same]
  intro s hs
  obtain ⟨first, second⟩ := mem_of_mem_sides hs
  exact ⟨_, _, rfl, same_plain (finite _ first), same_plain (finite _ second)⟩

/-- The path data of a run of lines between finite points draws its sides. -/
theorem curves_lineRun {e : Element} {closed : Bool} {points : List (Point Float)}
    (outline : shape? e = polyOutline? points closed) (two : 2 ≤ points.length)
    (finite : ∀ p ∈ points, p.IsFinite) :
    ∃ data, shapeData? e = some data ∧ curves data =
      .ok ((sides closed (points.map (Point.map plain))).map fun s => .line s.1 s.2) := by
  obtain ⟨p, rest, rfl, run⟩ := exists_lineRun two closed
  obtain ⟨data, written, read⟩ :=
    curves_shapeData (outline.trans run) (allFinite_lineRun.mpr finite)
  have twice : ((p :: rest).map (Point.map plain)).map (Point.map plain) =
      (p :: rest).map (Point.map plain) := by
    rw [List.map_map]
    exact List.map_congr_left fun q _ =>
      congrArg₂ Point.mk (Binary64.plain_plain q.x) (Binary64.plain_plain q.y)
  refine ⟨data, written, ?_⟩
  rw [read, map_lineRun, draw_lineRun, ← List.map_cons, twice]

/-- A list that gives path data lists two points or more. -/
theorem of_shapeData?_poly {e : Element} {closed : Bool}
    (kind : shapeKind? e = some (polyKind closed)) {s data : String}
    (attr : e.attribute? "points" = some s) (h : shapeData? e = some data) :
    ∃ points, ListsPoints s points ∧ 2 ≤ points.length := by
  obtain ⟨cs, outline, -⟩ := Option.map_eq_some_iff.mp h
  rw [shape?_poly kind attr] at outline
  obtain ⟨vertices, read, poly⟩ := Option.bind_eq_some_iff.mp outline
  obtain ⟨points, listed, rfl⟩ := points?_eq_some_iff.mp read
  refine ⟨points, listed, ?_⟩
  rw [← List.length_map (Point.map Binary64.ofLiteral)]
  unfold polyOutline? at poly
  split at poly
  · rename_i same
    rw [same]
    exact Nat.le_add_left 2 _
  · cases poly

/-- A list with a field that is no number gives no path data. -/
theorem shapeData?_eq_none_of_field {e : Element} {closed : Bool}
    (kind : shapeKind? e = some (polyKind closed)) {s : String}
    (attr : e.attribute? "points" = some s)
    (missing : ∃ field ∈ pointFields s, Literal.ofChars? field = none) : shapeData? e = none := by
  obtain ⟨field, mem, missing⟩ := missing
  by_contra some
  obtain ⟨data, written⟩ := Option.ne_none_iff_exists'.mp some
  obtain ⟨_, listed, -⟩ := of_shapeData?_poly kind attr written
  obtain ⟨l, read⟩ := listed.exists_literal field mem
  exact absurd (missing.symm.trans read) nofun

/-- The path data of a shape with straight sides draws the sides between its vertices. A list that
is no list of two points or more has no path data. -/
theorem shapeData?_draws_sides (e : Element) :
    (∀ closed vertices, HasVertices e closed vertices → (∀ p ∈ vertices, p.IsFinite) →
      ∃ data cs, shapeData? e = some data ∧ curves data = .ok cs ∧
        List.Forall₂ Joins cs (sides closed vertices)) ∧
    (∀ closed s, shapeKind? e = some (polyKind closed) → e.attribute? "points" = some s →
      (∃ field ∈ pointFields s, Literal.ofChars? field = none) ∨
        (pointFields s).length % 2 = 1 ∨ (pointFields s).length < 4 →
      shapeData? e = none) := by
  constructor
  · intro closed vertices h finite
    obtain ⟨outline, two⟩ := shape?_of_hasVertices h
    obtain ⟨data, written, read⟩ := curves_lineRun outline two finite
    exact ⟨data, _, written, read, joins_sides finite closed⟩
  · intro closed s kind attr unlisted
    rcases unlisted with missing | count
    · exact shapeData?_eq_none_of_field kind attr missing
    by_contra some
    obtain ⟨data, written⟩ := Option.ne_none_iff_exists'.mp some
    obtain ⟨points, listed, two⟩ := of_shapeData?_poly kind attr written
    have length := listed.length_eq.trans (length_coordinates points)
    omega

/-- A triangle below the axis. -/
def triangle : Element := ⟨"polygon", none, [⟨none, "points", "0,0 10,-0 10,-5"⟩], []⟩

def trianglePoints : List (Point Literal) :=
  [⟨.ofNat 0, .ofNat 0⟩, ⟨.ofNat 10, .decimal true 0 0⟩, ⟨.ofNat 10, .decimal true 5 0⟩]

/-- A polyline with half a point. -/
def oddPolyline : Element := ⟨"polyline", none, [⟨none, "points", "0,0 10,0 10"⟩], []⟩

theorem shapeData?_draws_sides_triangle :
    (∃ data cs, shapeData? triangle = some data ∧ curves data = .ok cs ∧
      List.Forall₂ Joins cs
        (sides true (trianglePoints.map (Point.map Binary64.ofLiteral)))) ∧
    shapeData? oddPolyline = none := by
  have finite : ∀ p ∈ trianglePoints.map (Point.map Binary64.ofLiteral),
      p.x.isFinite = true ∧ p.y.isFinite = true := by
    decide +kernel
  have listed : ListsPoints "0,0 10,-0 10,-5" trianglePoints :=
    mapM_eq_some_iff.mp (by decide +kernel)
  have vertices : HasVertices triangle true (trianglePoints.map (Point.map Binary64.ofLiteral)) :=
    .poly rfl rfl listed (by decide)
  exact ⟨(shapeData?_draws_sides triangle).1 true _ vertices finite,
    (shapeData?_draws_sides oddPolyline).2 false _ rfl rfl (.inr (.inl (by decide +kernel)))⟩

end LaserCut.Svg
