import LaserCut.Proofs.PathData.Interpretation
import LaserCut.Proofs.Reals

/-!
# Relative commands

In exact arithmetic. A relative command has an absolute form, whose points are the current point
plus the points of the command, and draws what that form draws.

* `Command.absolute`: the absolute form of a command at a current point;
* `absolutized`: commands with some of them, in any choice, in absolute form;
* `step_absolute`: a pen takes the same step on both forms of a command;
* `curves_absolutized`: and draws the same curves, from commands and from texts.
-/

namespace LaserCut.PathData

/-! ## Absolute forms -/

section Forms

variable {α : Type} [Scalar α]

/-- A segment with all its points counted from the origin, where they were counted from `current`.
Radii, rotations and flags are no points. -/
def Segment.absolute (current : Point α) : Segment α → Segment α
  | .moveTo p => .moveTo (current + p)
  | .lineTo p => .lineTo (current + p)
  | .horizontal x => .horizontal (current.x + x)
  | .vertical y => .vertical (current.y + y)
  | .cubic c₁ c₂ p => .cubic (current + c₁) (current + c₂) (current + p)
  | .smoothCubic c₂ p => .smoothCubic (current + c₂) (current + p)
  | .quadratic c p => .quadratic (current + c) (current + p)
  | .smoothQuadratic p => .smoothQuadratic (current + p)
  | .arc radii rotation large sweep p => .arc radii rotation large sweep (current + p)
  | .close => .close

/-- The absolute form of a command. A command that is absolute stays as it is. -/
def Command.absolute (current : Point α) (c : Command α) : Command α :=
  ⟨false, if c.relative then c.segment.absolute current else c.segment⟩

/-- Commands after others, the latest first, with those that the choice names by their place in
absolute form. -/
def absolutized (choice : Nat → Bool) (before : List (Command α)) :
    List (Command α) → List (Command α)
  | [] => []
  | c :: rest =>
    (if choice before.length then c.absolute (position before) else c) ::
      absolutized choice (c :: before) rest

/-- The pen after commands. -/
def Pen.after (pen : Pen α) (commands : List (Command α)) : Pen α :=
  commands.foldl (fun pen c => (pen.step c).1) pen

theorem Follows.after {pen : Pen α} {before : List (Command α)} (h : Follows pen before)
    (commands : List (Command α)) : Follows (pen.after commands) (commands.reverse ++ before) := by
  induction commands generalizing pen before with
  | nil => exact h
  | cons c rest ih =>
    rw [List.reverse_cons, List.append_assoc]
    exact ih (h.step c)

end Forms

/-! ## The same steps -/

section Steps

variable {α : Type} [Scalar α] [ExactArithmetic α]

theorem origin_add_eq (p : Point α) : Point.origin + p = p :=
  congrArg₂ Point.mk (ExactArithmetic.zero_add p.x) (ExactArithmetic.zero_add p.y)

/-- A pen takes the same step on a command and on its absolute form. -/
theorem step_absolute (pen : Pen α) (c : Command α) :
    pen.step (c.absolute pen.current) = pen.step c := by
  obtain ⟨relative, segment⟩ := c
  cases relative with
  | false => rfl
  | true =>
    cases segment <;>
      simp only [Command.absolute, Segment.absolute, Pen.step, origin_add_eq, if_true,
        Bool.false_eq_true, if_false]

/-- Whichever commands are in absolute form, a pen draws the same. -/
theorem Follows.trace_absolutized {pen : Pen α} {before : List (Command α)} (h : Follows pen before)
    (choice : Nat → Bool) (commands : List (Command α)) :
    pen.trace (absolutized choice before commands) = pen.trace commands := by
  induction commands generalizing pen before with
  | nil => rfl
  | cons c rest ih =>
    have same : pen.step (if choice before.length then c.absolute (position before) else c) =
        pen.step c := by
      split
      · rw [← h.current, step_absolute]
      · rfl
    simp only [absolutized, Pen.trace]
    rw [same, ih (h.step c)]

theorem draw_absolutized (choice : Nat → Bool) (commands : List (Command α)) :
    draw (absolutized choice [] commands) = draw commands :=
  Follows.fresh.trace_absolutized choice commands

/-- Commands draw the same curves when some of them, in any choice, are replaced by their absolute
forms, and so do two texts that spell such commands; a pair after a relative move is a relative
line. The current point is the one that a pen holds: after a closing command the start of the
subpath, and after an arc its end, also if the arc draws nothing. -/
theorem curves_absolutized :
    (∀ (choice : Nat → Bool) (commands : List (Command α)),
      draw (absolutized choice [] commands) = draw commands) ∧
    (∀ (choice : Nat → Bool) (d e : String) (relative absolute : List (Command Literal)),
      Spells none relative d.toList → Spells none absolute e.toList →
      absolute.map (Command.map Scalar.ofLiteral) =
        absolutized choice [] (relative.map (Command.map (Scalar.ofLiteral : Literal → α))) →
      ∃ cs : List (Curve α), curves d = .ok cs ∧ curves e = .ok cs) ∧
    (∀ commands : List (Command α),
      (Pen.fresh.after commands).current = position commands.reverse) ∧
    (∀ (before : List (Command α)) (relative : Bool),
      position (⟨relative, .close⟩ :: before) = subpathOrigin before) ∧
    ∀ (before : List (Command α)) (relative : Bool) (radii : Point α) (rotation : α)
      (large sweep : Bool) (p : Point α),
      drawn before ⟨relative, .arc radii rotation large sweep p⟩ = none →
      position (⟨relative, .arc radii rotation large sweep p⟩ :: before) =
        written relative (position before) p := by
  refine ⟨draw_absolutized, ?_, fun commands => ?_, fun _ _ => rfl, fun _ _ _ _ _ _ _ _ => rfl⟩
  · intro choice d e relative absolute spelled respelled same
    refine ⟨draw (relative.map (Command.map Scalar.ofLiteral)), ?_, ?_⟩
    · rw [curves, parse_eq_ok_iff.mpr spelled]
      rfl
    · rw [curves, parse_eq_ok_iff.mpr respelled, ← draw_absolutized choice, ← same]
      rfl
  · have followed := (Follows.fresh.after commands).current
    rwa [List.append_nil] at followed

end Steps

/-- Pairs after a move, a closing command, an arc that draws nothing, and commands between them, all
relative. -/
def relativePairs : List (Command Literal) :=
  [⟨true, .moveTo ⟨.ofNat 1, .ofNat 1⟩⟩, ⟨true, .lineTo ⟨.ofNat 2, .ofNat 0⟩⟩,
    ⟨true, .lineTo ⟨.ofNat 0, .ofNat 2⟩⟩, ⟨true, .close⟩, ⟨true, .horizontal (.ofNat 5)⟩,
    ⟨true, .arc ⟨.ofNat 3, .ofNat 3⟩ (.ofNat 0) false true ⟨.ofNat 0, .ofNat 0⟩⟩,
    ⟨true, .lineTo ⟨.ofNat 1, .ofNat 1⟩⟩]

/-- The same with most of them in absolute form. -/
def absolutePairs : List (Command Literal) :=
  [⟨false, .moveTo ⟨.ofNat 1, .ofNat 1⟩⟩, ⟨false, .lineTo ⟨.ofNat 3, .ofNat 1⟩⟩,
    ⟨false, .lineTo ⟨.ofNat 3, .ofNat 3⟩⟩, ⟨false, .close⟩, ⟨true, .horizontal (.ofNat 5)⟩,
    ⟨false, .arc ⟨.ofNat 3, .ofNat 3⟩ (.ofNat 0) false true ⟨.ofNat 6, .ofNat 1⟩⟩,
    ⟨true, .lineTo ⟨.ofNat 1, .ofNat 1⟩⟩]

theorem curves_absolutized_pairs :
    ∃ cs : List (Curve ℝ), curves "m1 1 2 0 0 2zh5a3 3 0 0 1 0 0l1 1" = .ok cs ∧
      curves "M1,1L3,1L3,3Zh5A3,3,0,0,1,6,1l1 1" = .ok cs := by
  have relative : Spells none relativePairs "m1 1 2 0 0 2zh5a3 3 0 0 1 0 0l1 1".toList :=
    parse_eq_ok_iff.mp (Outcome.toOption_eq_some_iff.mp (by decide +kernel))
  have absolute : Spells none absolutePairs "M1,1L3,1L3,3Zh5A3,3,0,0,1,6,1l1 1".toList :=
    parse_eq_ok_iff.mp (Outcome.toOption_eq_some_iff.mp (by decide +kernel))
  refine curves_absolutized.2.1 (fun place => place != 4 && place != 6) _ _ _ _ relative absolute ?_
  have value (n : Nat) : (Scalar.ofLiteral (.ofNat n) : ℝ) = n := Exact.ofNat_eq n
  have origin : (Point.origin : Point ℝ) = ⟨0, 0⟩ := rfl
  simp only [relativePairs, absolutePairs, absolutized, Command.absolute, Segment.absolute,
    Command.map, Segment.map, Point.map, position, subpathOrigin, written, value, origin,
    Point.add_def, List.map_cons, List.map_nil, List.length_cons, List.length_nil]
  norm_num

end LaserCut.PathData
