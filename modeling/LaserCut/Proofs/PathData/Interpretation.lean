import LaserCut.PathData.Outline
import LaserCut.Proofs.PathData.Grammar

/-!
# What path data draws

The meaning of path commands, stated without a pen: what a command draws is a function of the
commands before it, the latest first.

* `position`, `subpathOrigin`: the current point and the start of the subpath;
* `cubicControl`, `quadraticControl`: the control points of the smooth commands;
* `drawn`: the curve of one command;
* `interpretation`: the curves of commands in order.

A pen that has followed some commands holds these values (`Follows`), each step keeps it so
(`Follows.step`), and the curves of a text are those of the commands that it spells
(`curves_eq_ok_iff`).
-/

namespace LaserCut.PathData

section Meaning

variable {α : Type} [Scalar α]

/-- A point as a command gives it: counted from the current point by a relative command and from the
origin by an absolute one. -/
def written (relative : Bool) (current p : Point α) : Point α :=
  (if relative then current else Point.origin) + p

mutual

/-- The point that commands end at. -/
def position : List (Command α) → Point α
  | [] => Point.origin
  | ⟨relative, segment⟩ :: before =>
    match segment with
    | .horizontal x => ⟨if relative then (position before).x + x else x, (position before).y⟩
    | .vertical y => ⟨(position before).x, if relative then (position before).y + y else y⟩
    | .close => subpathOrigin before
    | .moveTo p | .lineTo p | .cubic _ _ p | .smoothCubic _ p | .quadratic _ p
    | .smoothQuadratic p | .arc _ _ _ _ p => written relative (position before) p

/-- The point of the last move. -/
def subpathOrigin : List (Command α) → Point α
  | [] => Point.origin
  | ⟨relative, segment⟩ :: before =>
    match segment with
    | .moveTo p => written relative (position before) p
    | _ => subpathOrigin before

end

/-- A point reflected in another. -/
def mirrored (center p : Point α) : Point α := center * (Scalar.two : α) - p

/-- The first control point of a smooth cubic curve: the last control point of the command before
it, mirrored, if that was a cubic curve too, and else the current point. -/
def cubicControl : List (Command α) → Point α
  | [] => Point.origin
  | ⟨relative, segment⟩ :: before =>
    match segment with
    | .cubic _ c _ | .smoothCubic c _ =>
      mirrored (position (⟨relative, segment⟩ :: before)) (written relative (position before) c)
    | _ => position (⟨relative, segment⟩ :: before)

/-- The control point of a smooth quadratic curve: that of the command before it, mirrored, if that
was a quadratic curve too, and else the current point. -/
def quadraticControl : List (Command α) → Point α
  | [] => Point.origin
  | ⟨relative, segment⟩ :: before =>
    match segment with
    | .quadratic c _ =>
      mirrored (position (⟨relative, segment⟩ :: before)) (written relative (position before) c)
    | .smoothQuadratic _ =>
      mirrored (position (⟨relative, segment⟩ :: before)) (quadraticControl before)
    | _ => position (⟨relative, segment⟩ :: before)

/-- The curve that a command draws after others. -/
def drawn (before : List (Command α)) (c : Command α) : Option (Curve α) :=
  let start := position before
  let finish := position (c :: before)
  match c.segment with
  | .moveTo _ => none
  | .lineTo _ | .horizontal _ | .vertical _ => some (.line start finish)
  | .cubic c₁ c₂ _ =>
    some (.cubic start (written c.relative start c₁) (written c.relative start c₂) finish)
  | .smoothCubic c₂ _ =>
    some (.cubic start (cubicControl before) (written c.relative start c₂) finish)
  | .quadratic c₁ _ => some (.quadratic start (written c.relative start c₁) finish)
  | .smoothQuadratic _ => some (.quadratic start (quadraticControl before) finish)
  | .arc radii rotation large sweep _ => Curve.ofArc? start finish ⟨radii, rotation, large, sweep⟩
  | .close => if start.same finish then none else some (.line start finish)

/-- The curves that commands draw after others. -/
def interpretation (before : List (Command α)) : List (Command α) → List (Curve α)
  | [] => []
  | c :: rest => (drawn before c).toList ++ interpretation (c :: before) rest

end Meaning

/-! ## The pen -/

section Pen

variable {α : Type} [Scalar α]

/-- A pen that has followed the commands `before`, the latest first. -/
structure Follows (pen : Pen α) (before : List (Command α)) : Prop where
  current : pen.current = position before
  subpathStart : pen.subpathStart = subpathOrigin before
  cubicControl : pen.smoothCubicControl = cubicControl before
  quadraticControl : pen.smoothQuadraticControl = quadraticControl before

theorem Follows.fresh : Follows (Pen.fresh : Pen α) [] := ⟨rfl, rfl, rfl, rfl⟩

theorem Follows.step_current {pen : Pen α} {before : List (Command α)} (h : Follows pen before)
    (c : Command α) : (pen.step c).1.current = position (c :: before) := by
  obtain ⟨relative, segment⟩ := c
  cases segment <;>
    simp only [Pen.step, Pen.advance, position, written, h.current, h.subpathStart]

/-- A pen that has followed commands has followed the next one after its step. -/
theorem Follows.step {pen : Pen α} {before : List (Command α)} (h : Follows pen before)
    (c : Command α) : Follows (pen.step c).1 (c :: before) := by
  have hp := h.step_current c
  obtain ⟨relative, segment⟩ := c
  refine ⟨hp, ?_, ?_, ?_⟩
  · cases segment <;>
      simp only [Pen.step, Pen.advance, subpathOrigin, written, h.current, h.subpathStart]
  · cases segment <;>
      simp only [Pen.step, Pen.advance, Pen.smoothCubicControl, Pen.reflected,
        PathData.cubicControl, position, written, mirrored, h.current, h.subpathStart]
  · cases segment with
    | smoothQuadratic p =>
      -- The control point is that of the pen before, and not one that the command gives.
      show mirrored (written relative pen.current p) pen.smoothQuadraticControl =
        mirrored (written relative (position before) p) (PathData.quadraticControl before)
      rw [h.current, h.quadraticControl]
    | _ =>
      simp only [Pen.step, Pen.advance, Pen.smoothQuadraticControl, Pen.reflected,
        PathData.quadraticControl, position, written, mirrored, h.current, h.subpathStart]

/-- A pen draws with a command what the command means. -/
theorem Follows.step_drawn {pen : Pen α} {before : List (Command α)} (h : Follows pen before)
    (c : Command α) : (pen.step c).2 = drawn before c := by
  obtain ⟨relative, segment⟩ := c
  cases segment <;>
    simp only [Pen.step, drawn, position, written, h.current, h.subpathStart, h.cubicControl,
      h.quadraticControl]
  rfl

/-- A pen draws the curves that the commands mean. -/
theorem Follows.trace {pen : Pen α} {before : List (Command α)} (h : Follows pen before)
    (commands : List (Command α)) : pen.trace commands = interpretation before commands := by
  induction commands generalizing pen before with
  | nil => rfl
  | cons c rest ih =>
    simp only [Pen.trace, interpretation]
    rw [h.step_drawn c, ih (h.step c)]

theorem draw_eq_interpretation (commands : List (Command α)) :
    draw commands = interpretation [] commands :=
  Follows.fresh.trace commands

end Pen

/-! ## Texts -/

/-- A text spells at most one sequence of commands. -/
theorem Spells.unique {previous : Option Letter} {a b : List (Command Literal)} {cs : List Char}
    (ha : Spells previous a cs) (hb : Spells previous b cs) : a = b := by
  have h : commands cs previous cs = .ok a := commands_eq_ok_iff.mpr ha
  rw [commands_eq_ok_iff.mpr hb] at h
  exact (Except.ok.inj h).symm

/-- Path data is accepted if and only if it spells commands, and draws what they mean. It spells at
most one sequence of commands. -/
theorem curves_eq_ok_iff {α : Type} [Scalar α] (d : String) (cs : List (Curve α)) :
    (curves d = .ok cs ↔ ∃ commands, Spells none commands d.toList ∧
      cs = interpretation [] (commands.map (Command.map Scalar.ofLiteral))) ∧
    ∀ a b, Spells none a d.toList → Spells none b d.toList → a = b := by
  refine ⟨?_, fun _ _ => Spells.unique⟩
  simp only [curves, Outcome.map_eq_ok_iff, parse_eq_ok_iff, draw_eq_interpretation,
    eq_comm (a := cs)]

end LaserCut.PathData
