import LaserCut.Gcode.Program
import LaserCut.Proofs.Binary64
import LaserCut.Proofs.Gcode.Line
import LaserCut.Proofs.Geometry.Flatten
import LaserCut.Proofs.Outcome

/-!
# The body of a program

What curves are written as, stated without a controller:

* `moves`: the moves of each curve depend only on the curve before it;
* `withFeed`: the feed is a word of the first cut;
* `bodyOf`: the two together.

`Controller.after` is the state of a controller that has drawn curves. Drawing more of them leads
from such a state to such a state (`draw_after`), so a compiler that starts afresh has the body
`bodyOf` and the position of the last curve's finish (`body_eq_bodyOf`).
-/

namespace LaserCut.Gcode

section Reference

variable {α : Type} [Scalar α]

/-- The tool off, a rapid move, the tool on. -/
def travel (start : Point α) : List (Instruction α) :=
  [.toolOff, .rapid (.plane start.x start.y), .toolOn 1]

/-- A cut to a point, at the feed in effect. -/
def cutTo (p : Point α) : Instruction α := .cut none (.plane p.x p.y)

/-- The curve before ends near the start of a curve. -/
def meets (tolerance : α) (previous : Option (Curve α)) (curve : Curve α) : Bool :=
  previous.any fun p => decide (p.finish.distance curve.start ≤ tolerance)

/-- The moves for curves, the first of which comes after `previous`. -/
def moves (tolerance : α) (previous : Option (Curve α)) : List (Curve α) → List (Instruction α)
  | [] => []
  | curve :: rest =>
    (if meets tolerance previous curve then [] else travel curve.start) ++
      (curve.flatten tolerance).map cutTo ++ moves tolerance (some curve) rest

/-- The feed as a word of the first cut. -/
def withFeed (feed : α) : List (Instruction α) → List (Instruction α)
  | [] => []
  | .cut _ words :: rest => .cut (some feed) words :: rest
  | i :: rest => i :: withFeed feed rest

/-- The body for curves. -/
def bodyOf (motion : Motion α) (curves : List (Curve α)) : List (Instruction α) :=
  withFeed motion.cuttingSpeed (moves motion.tolerance none curves)

end Reference

theorem withFeed_cuts_append {α : Type} {feed : α} {points : List (Point α)} (h : points ≠ [])
    (is : List (Instruction α)) :
    withFeed feed (points.map cutTo ++ is) = withFeed feed (points.map cutTo) ++ is := by
  rcases points with _ | ⟨p, points⟩
  · exact absurd rfl h
  · rfl

/-! ## Moves of one curve -/

section Moves

variable {α : Type} [Scalar α]

/-- A controller that has drawn curves, the last of which is `previous`. -/
def Controller.after (motion : Motion α) : Option (Curve α) → Controller α
  | none => Controller.initial
  | some p => ⟨some p.finish, some motion.cuttingSpeed, some motion.cuttingSpeed, false⟩

theorem perform_append (c : Controller α) (as bs : List (Request α)) :
    c.perform (as ++ bs) =
      c.perform as >>= fun (is, c) => (c.perform bs).map fun (js, c) => (is ++ js, c) := by
  induction as generalizing c with
  | nil =>
    show c.perform bs = (c.perform bs).map fun (js, c) => ([] ++ js, c)
    rcases c.perform bs with e | ⟨js, c⟩ <;> rfl
  | cons a as ih =>
    simp only [List.cons_append, Controller.perform]
    rcases c.handle a with ⟨e | i, c⟩
    · rfl
    · simp only [ih]
      rcases c.perform as with e | ⟨is, c⟩
      · rfl
      · simp only [bind, Except.bind, Except.map]
        rcases c.perform bs with e | ⟨js, c⟩
        · rfl
        · simp only [List.append_assoc]

/-- One request of a list. -/
theorem perform_cons {c d : Controller α} {a : Request α} {i : Option (Instruction α)}
    (h : c.handle a = (.ok i, d)) (as : List (Request α)) :
    c.perform (a :: as) = (d.perform as).map fun (is, c) => (i.toList ++ is, c) := by
  simp only [Controller.perform, h]

theorem hasFeed_self {speed : α} (hs : (speed == speed) = true) (position : Option (Point α)) :
    (⟨position, some speed, some speed, false⟩ : Controller α).hasFeed speed = true := hs

/-- Cuts at a feed that is in effect. -/
theorem perform_cuts {speed : α} (hs : (speed == speed) = true) (points : List (Point α)) :
    ∀ position, (⟨position, some speed, some speed, false⟩ : Controller α).perform
        (points.map fun p => .move (.plane p.x p.y)) =
      .ok (points.map cutTo, ⟨points.getLast?.or position, some speed, some speed, false⟩) := by
  induction points with
  | nil => intro position; rfl
  | cons p points ih =>
    intro position
    have step : (⟨position, some speed, some speed, false⟩ : Controller α).handle
        (.move (.plane p.x p.y)) =
          (.ok (some (cutTo p)), ⟨some p, some speed, some speed, false⟩) := by
      simp only [Controller.handle, Controller.move, AxisWords.isEmpty, AxisWords.plane,
        hasFeed_self hs, Controller.moved]
      rfl
    rw [List.map_cons, perform_cons step, ih, List.getLast?_cons]
    simp only [Except.map, Option.toList_some, List.singleton_append, List.map_cons]
    rcases points.getLast? <;> rfl

/-- Wherever the head is, it can be brought to the start of a curve. -/
theorem perform_approach (h0 : (0 : α) ≤ 1) (h1 : (1 : α) ≤ 1) (motion : Motion α)
    (start : Point α) (c : Controller α) :
    c.perform (approach motion start) =
      .ok (travel start, ⟨some start, some motion.cuttingSpeed, c.feed, false⟩) := by
  simp only [approach, Controller.perform, Controller.handle, Controller.move, AxisWords.isEmpty,
    AxisWords.plane, Controller.moved, h0, h1]
  rfl

theorem perform_follow {motion : Motion α}
    (hs : (motion.cuttingSpeed == motion.cuttingSpeed) = true) (curve : Curve α)
    (position : Option (Point α)) :
    (⟨position, some motion.cuttingSpeed, some motion.cuttingSpeed, false⟩ : Controller α).perform
        (follow motion curve) =
      .ok ((curve.flatten motion.tolerance).map cutTo, .after motion (some curve)) := by
  rw [follow, perform_cuts hs, curve.getLast?_flatten]
  rfl

/-- The first curve of all brings the feed into effect. -/
theorem perform_follow_first {motion : Motion α}
    (hs : (motion.cuttingSpeed == motion.cuttingSpeed) = true) (curve : Curve α)
    (position : Option (Point α)) :
    (⟨position, some motion.cuttingSpeed, none, false⟩ : Controller α).perform
        (follow motion curve) =
      .ok (withFeed motion.cuttingSpeed ((curve.flatten motion.tolerance).map cutTo),
        .after motion (some curve)) := by
  have last := curve.getLast?_flatten motion.tolerance
  rw [follow]
  generalize curve.flatten motion.tolerance = points at last ⊢
  rcases points with _ | ⟨p, points⟩
  · cases last
  · have step : (⟨position, some motion.cuttingSpeed, none, false⟩ : Controller α).handle
        (.move (.plane p.x p.y)) =
          (.ok (some (.cut (some motion.cuttingSpeed) (.plane p.x p.y))),
            ⟨some p, some motion.cuttingSpeed, some motion.cuttingSpeed, false⟩) := by
      rfl
    rw [List.map_cons, perform_cons step, perform_cuts hs]
    rw [List.getLast?_cons, ← Option.or_some] at last
    rw [last]
    rfl

end Moves

/-! ## Moves of all curves -/

section Draw

variable {α : Type} [Scalar α] {motion : Motion α}

theorem draw_cons (c : Controller α) (curve : Curve α) (rest : List (Curve α)) :
    draw motion c (curve :: rest) =
      c.perform (drawing motion c.position curve) >>= fun (is, c) =>
        (draw motion c rest).map fun (js, c) => (is ++ js, c) := by
  rw [draw]
  rcases c.perform (drawing motion c.position curve) with e | ⟨is, c⟩
  · rfl
  · show (draw motion c rest >>= fun (js, c) => Except.ok (is ++ js, c)) =
      (draw motion c rest).map fun (js, c) => (is ++ js, c)
    rcases draw motion c rest with e | ⟨js, c⟩ <;> rfl

/-- A curve after another: the head travels unless the two meet. -/
theorem perform_drawing (h0 : (0 : α) ≤ 1) (h1 : (1 : α) ≤ 1)
    (hs : (motion.cuttingSpeed == motion.cuttingSpeed) = true) (previous curve : Curve α) :
    (Controller.after motion (some previous)).perform
        (drawing motion (Controller.after motion (some previous)).position curve) =
      .ok ((if meets motion.tolerance (some previous) curve then [] else travel curve.start) ++
          (curve.flatten motion.tolerance).map cutTo,
        .after motion (some curve)) := by
  show Controller.perform _ ((if meets motion.tolerance (some previous) curve then []
    else approach motion curve.start) ++ follow motion curve) = _
  split
  · exact perform_follow hs curve _
  · rw [perform_append, perform_approach h0 h1]
    show (Controller.perform ⟨_, _, some motion.cuttingSpeed, _⟩ _).map _ = _
    rw [perform_follow hs]
    rfl

/-- Drawing leads from the state after a curve to the state after the last one. -/
theorem draw_after (h0 : (0 : α) ≤ 1) (h1 : (1 : α) ≤ 1)
    (hs : (motion.cuttingSpeed == motion.cuttingSpeed) = true) (curves : List (Curve α)) :
    ∀ previous, draw motion (.after motion (some previous)) curves =
      .ok (moves motion.tolerance (some previous) curves,
        .after motion (curves.getLast?.or (some previous))) := by
  induction curves with
  | nil => intro previous; rfl
  | cons curve rest ih =>
    intro previous
    rw [draw_cons, perform_drawing h0 h1 hs]
    show (draw motion (.after motion (some curve)) rest).map _ = _
    rw [ih, List.getLast?_cons, ← Option.or_some]
    rcases rest.getLast? <;> rfl

theorem bodyOf_cons (motion : Motion α) (curve : Curve α) (rest : List (Curve α)) :
    bodyOf motion (curve :: rest) =
      travel curve.start ++ withFeed motion.cuttingSpeed
        ((curve.flatten motion.tolerance).map cutTo) ++
          moves motion.tolerance (some curve) rest := by
  show travel curve.start ++ withFeed _ ((curve.flatten _).map cutTo ++ _) = _
  rw [withFeed_cuts_append (curve.flatten_ne_nil _), List.append_assoc]

/-- The moves of a fresh controller. -/
theorem draw_initial (h0 : (0 : α) ≤ 1) (h1 : (1 : α) ≤ 1)
    (hs : (motion.cuttingSpeed == motion.cuttingSpeed) = true) (curves : List (Curve α)) :
    draw motion .initial curves = .ok (bodyOf motion curves, .after motion curves.getLast?) := by
  rcases curves with _ | ⟨curve, rest⟩
  · rfl
  · have drawn : Controller.initial.perform (approach motion curve.start ++ follow motion curve) =
        .ok (travel curve.start ++ withFeed motion.cuttingSpeed
          ((curve.flatten motion.tolerance).map cutTo), .after motion (some curve)) := by
      rw [perform_append, perform_approach h0 h1]
      show (Controller.perform ⟨_, _, none, _⟩ _).map _ = _
      rw [perform_follow_first hs]
      rfl
    rw [draw_cons]
    show Controller.initial.perform (approach motion curve.start ++ follow motion curve) >>= _ = _
    rw [drawn]
    show (draw motion (.after motion (some curve)) rest).map _ = _
    rw [draw_after h0 h1 hs, bodyOf_cons, List.getLast?_cons, ← Option.or_some]
    rcases rest.getLast? <;> rfl

end Draw

/-! ## The body of a compiler -/

namespace Compiler

section Append

variable {α : Type} [Scalar α]

theorem appendAll_nil (c : Compiler α) : c.appendAll [] = .ok c := by
  rcases c with ⟨dialect, motion, header, footer, controller, body⟩
  simp only [appendAll, draw, Except.map, List.filter_nil, List.append_nil]

theorem draw_singleton (motion : Motion α) (c : Controller α) (curve : Curve α) :
    draw motion c [curve] = c.perform (drawing motion c.position curve) := by
  rw [draw_cons]
  rcases c.perform (drawing motion c.position curve) with e | ⟨is, c⟩
  · rfl
  · show Except.ok (is ++ [], c) = Except.ok (is, c)
    rw [List.append_nil]

theorem appendAll_cons (c : Compiler α) (curve : Curve α) (rest : List (Curve α)) :
    c.appendAll (curve :: rest) = c.append curve >>= (·.appendAll rest) := by
  simp only [append, appendAll, draw_cons c.controller curve rest, draw_singleton]
  rcases c.controller.perform (drawing c.motion c.controller.position curve) with e | ⟨is, d⟩
  · rfl
  · simp only [bind, Except.bind, Except.map]
    rcases draw c.motion d rest with e | ⟨js, d⟩
    · rfl
    · simp only [List.filter_append, List.append_assoc]

/-- Curves can be given one at a time. -/
theorem foldlM_append (curves : List (Curve α)) (c : Compiler α) :
    curves.foldlM append c = c.appendAll curves := by
  induction curves generalizing c with
  | nil => exact (appendAll_nil c).symm
  | cons curve rest ih =>
    rw [List.foldlM_cons, appendAll_cons]
    simp only [ih]

theorem appendAll_new (h0 : (0 : α) ≤ 1) (h1 : (1 : α) ≤ 1) {motion : Motion α}
    (hs : (motion.cuttingSpeed == motion.cuttingSpeed) = true) (dialect : Dialect)
    (header footer : List (Instruction α)) (curves : List (Curve α)) :
    (new dialect motion header footer).appendAll curves =
      .ok ⟨dialect, motion, header, footer, .after motion curves.getLast?,
        (bodyOf motion curves).filter (!dialect.isSilent ·)⟩ := by
  show (draw motion .initial curves).map _ = _
  rw [draw_initial h0 h1 hs]
  rfl

end Append

/-- Curves given one at a time to a fresh compiler make up the body `bodyOf`, without its empty
lines, and leave the head at the finish of the last. -/
theorem body_eq_bodyOf (dialect : Dialect) (motion : Motion Float)
    (header footer : List (Instruction Float)) (hs : motion.cuttingSpeed.isNaN = false)
    (curves : List (Curve Float)) :
    ∃ c, curves.foldlM append (new dialect motion header footer) = .ok c ∧
      c.body = (bodyOf motion curves).filter (dialect.line · ≠ "") ∧
      c.controller.position = curves.getLast?.map Curve.finish := by
  refine ⟨_, (foldlM_append curves _).trans <|
    appendAll_new (by decide) (by decide) (Binary64.beq_self hs) dialect header footer curves,
    ?_, ?_⟩
  · rw [← dialect.not_isSilent_eq]
  · rcases curves.getLast? <;> rfl

/-- Two lines that meet and a curve elsewhere, with a tool that needs no line to go off. -/
theorem body_of_three_curves :
    (750 : Float).isNaN = false ∧
      ∃ c : Compiler Float,
        [Curve.line ⟨0, 0⟩ ⟨10, 0⟩, .line ⟨10, 0⟩ ⟨10, 5⟩,
            .quadratic ⟨20, 0⟩ ⟨20, 5⟩ ⟨25, 5⟩].foldlM append
            (new ⟨1, some ⟨"", "M3 S255;"⟩⟩ ⟨3000, 750, 0, 1⟩ [] []) = .ok c ∧
          c.body.map (Dialect.line ⟨1, some ⟨"", "M3 S255;"⟩⟩) =
            ["G0 X0.0 Y0.0;", "M3 S255;", "G1 F750 X10.0 Y0.0;", "G1 X10.0 Y5.0;",
              "G0 X20.0 Y0.0;", "M3 S255;", "G1 X20.3 Y2.2;", "G1 X21.2 Y3.8;",
              "G1 X22.8 Y4.7;", "G1 X25.0 Y5.0;"] ∧
          c.controller.position = some ⟨25, 5⟩ := by
  refine ⟨by decide, ?_⟩
  obtain ⟨c, drawn, body, position⟩ := body_eq_bodyOf ⟨1, some ⟨"", "M3 S255;"⟩⟩
    ⟨3000, 750, 0, 1⟩ [] [] (by decide)
    [.line ⟨0, 0⟩ ⟨10, 0⟩, .line ⟨10, 0⟩ ⟨10, 5⟩, .quadratic ⟨20, 0⟩ ⟨20, 5⟩ ⟨25, 5⟩]
  refine ⟨c, drawn, ?_, position⟩
  rw [body]
  decide +kernel

end Compiler
end LaserCut.Gcode
