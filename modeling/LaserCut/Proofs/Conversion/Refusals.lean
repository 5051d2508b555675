import LaserCut.Proofs.Conversion.Travel
import LaserCut.Proofs.Gcode.Lines

/-!
# What is refused

A controller refuses a move without a speed and a power that is no fraction. Neither is ever asked
for: header, footer and drawing set a speed first, and the tool goes on at full power. What is left
to refuse is a coordinate with more places than can be written. Settings that are not checked can
ask for one, as a tolerance of zero does.

* `exists_program`: all curves have a program, whatever the settings are;
* `convert_ne_motion`: no drawing is refused for its motion;
* `writtenIff_frameLines`: header and footer are written unless one of them moves to a coordinate
  with too many places.
-/

namespace LaserCut.Conversion

open Gcode

section Program

variable {α : Type} [Scalar α]

theorem exists_program (h0 : (0 : α) ≤ 1) (h1 : (1 : α) ≤ 1) (s : Settings α)
    (curves : List (Curve α)) : ∃ is, program s curves = .ok is := by
  obtain ⟨header, footer, framed⟩ : ∃ header footer, frame s = .ok (header, footer) :=
    ⟨_, _, frame_eq s⟩
  obtain ⟨c, appended, ready⟩ :=
    (Compiler.ready_new (dialect s) (motion s) header footer).exists_appendAll h0 h1 curves
  obtain ⟨is, d, written, -⟩ := ready.exists_program s.passes
  refine ⟨is, ?_⟩
  rw [program, framed]
  show ((Compiler.new (dialect s) (motion s) header footer).appendAll curves >>= _) = _
  rw [appended]
  show (c.program s.passes >>= _) = _
  rw [written]
  rfl

end Program

theorem convertRoot_ne_motion (root : Element) (s : Settings Float) (e : MotionError Float) :
    convertRoot root s ≠ .error (.motion e) := by
  intro refused
  rcases Outcome.bind_eq_error_iff.mp refused with invalid | ⟨t, -, refused⟩
  · obtain ⟨_, -, eq⟩ := Outcome.mapError_eq_error_iff.mp invalid
    cases eq
  rcases Outcome.bind_eq_error_iff.mp refused with unplaced | ⟨curves, -, refused⟩
  · obtain ⟨_, -, eq⟩ := Outcome.mapError_eq_error_iff.mp unplaced
    cases eq
  obtain ⟨is, written⟩ := exists_program Binary64.zero_le_one Binary64.one_le_one t curves
  rw [written] at refused
  cases refused

theorem convert_ne_motion (svg : String) (s : Settings Float) (e : MotionError Float) :
    convert svg s ≠ .error (.motion e) := by
  intro refused
  rcases Outcome.bind_eq_error_iff.mp refused with unread | ⟨root, -, refused⟩
  · obtain ⟨_, -, eq⟩ := Outcome.mapError_eq_error_iff.mp unread
    cases eq
  rcases Outcome.bind_eq_error_iff.mp refused with refused | ⟨is, -, returned⟩
  · exact convertRoot_ne_motion root s e refused
  · cases returned

/-! ## Lines before and after the drawing -/

theorem all_canWrite_opening_iff (s : Settings Float) :
    (opening s).all (dialect s).canWrite = true ↔
      (dialect s).places ≤ maxPlaces ∨ s.doZAxisStart = false := by
  have height := (dialect s).all_canWrite_rapid_iff (AxisWords.isEmpty_height s.zAxisStart)
    s.doZAxisStart
  rw [← height, opening]
  cases s.zeroMachine <;> cases s.doLaserOffStart <;> by_cases dwell : 0 < s.dwellTime <;>
    simp [dwell, Dialect.canWrite]

theorem all_canWrite_homeward_iff (s : Settings Float) :
    (homeward s).all (dialect s).canWrite = true ↔
      (dialect s).places ≤ maxPlaces ∨ s.moveToOriginEnd = false := by
  rw [homeward, List.all_append, Dialect.all_canWrite_verbatim, Bool.and_true,
    (dialect s).all_canWrite_rapid_iff (AxisWords.isEmpty_plane _ _)]

/-- Header and footer are written unless they move to a coordinate with too many places. -/
theorem writtenIff_frameLines (s : Settings Float) :
    WrittenIff ((dialect s).places ≤ maxPlaces ∨
        s.doZAxisStart = false ∧ s.moveToOriginEnd = false)
      (fun lines => ∃ header footer, frame s = .ok (header, footer) ∧
        lines = (header.map (dialect s).line, footer.map (dialect s).line)) (frameLines s) := by
  have header : ((s.header.map Instruction.verbatim ++ opening s).filter
      (!(dialect s).isSilent ·)).all (dialect s).canWrite = true ↔
        (dialect s).places ≤ maxPlaces ∨ s.doZAxisStart = false := by
    rw [Dialect.all_canWrite_filter, List.all_append, Dialect.all_canWrite_verbatim, Bool.true_and,
      all_canWrite_opening_iff]
  have footer : (((if s.doLaserOffEnd then [Instruction.toolOff] else []) ++ homeward s).filter
      (!(dialect s).isSilent ·)).all (dialect s).canWrite = true ↔
        (dialect s).places ≤ maxPlaces ∨ s.moveToOriginEnd = false := by
    rw [Dialect.all_canWrite_filter, List.all_append, ← all_canWrite_homeward_iff]
    cases s.doLaserOffEnd <;> rfl
  rw [or_and_left, ← header, ← footer, frameLines, frame_eq]
  refine ((dialect s).writtenIff_lines _).bind fun above _ headed => ?_
  refine ((dialect s).writtenIff_lines _).map fun below _ footed => ?_
  exact ⟨_, _, rfl, Prod.ext headed footed⟩

end LaserCut.Conversion
