import LaserCut.Proofs.Conversion.Execution
import LaserCut.Proofs.Gcode.Travel
import LaserCut.Proofs.Svg.Document

/-!
# Where the laser is off while the head travels

A program travels in its header (to a height), in its passes and in its footer (back to the
origin). Header and passes never travel with the laser on. A footer starts with the laser on
whenever something was drawn, and only its own first line can switch it off.

* `opening`, `homeward`: what frames a drawing apart from the user's own header;
* `frame_eq`: every setting has a header and a footer;
* `travelsDark_footer_iff`: when a footer travels with the laser off;
* `travelsDark_iff`: the same of header, passes and footer together;
* `convert_isDarkProgram`: the same of the lines for a drawing.
-/

namespace LaserCut.Conversion

open Gcode

/-! ## Header and footer -/

section Frame

variable {α : Type}

/-- What stands in a header after the user's own lines. -/
def opening (s : Settings α) : List (Instruction α) :=
  [.absolute, .unit s.unit] ++
    (if s.zeroMachine then [.setOrigin] else []) ++
    (if s.doLaserOffStart then [.toolOff] else []) ++
    (if s.doZAxisStart then [.rapid (.height s.zAxisStart)] else []) ++
    (if 0 < s.dwellTime then [.dwell s.dwellTime] else [])

theorem mem_opening {s : Settings α} {i : Instruction α} (h : i ∈ opening s) :
    i ∈ [.absolute, .toolOff, .rapid (.height s.zAxisStart)] ∨
      i ∈ [.unit s.unit, .setOrigin, .dwell s.dwellTime] := by
  simp only [opening, List.mem_append, List.mem_cons, List.not_mem_nil, or_false] at h ⊢
  grind

variable [Scalar α]

/-- What stands in a footer after the laser may have been switched off. -/
def homeward (s : Settings α) : List (Instruction α) :=
  (if s.moveToOriginEnd then [.rapid (.plane 0 0)] else []) ++ s.footer.map .verbatim

theorem perform_headerRequests (s : Settings α) :
    ∃ c, Controller.initial.perform (headerRequests s) = .ok (opening s, c) := by
  rw [headerRequests, opening]
  cases s.zeroMachine <;> cases s.doLaserOffStart <;> cases s.doZAxisStart <;>
    by_cases dwell : 0 < s.dwellTime <;> simp only [dwell] <;> exact ⟨_, rfl⟩

theorem perform_footerRequests (s : Settings α) (c : Controller α) :
    ∃ d, c.perform (footerRequests s) = .ok ((if s.doLaserOffEnd then [.toolOff] else []) ++
      (if s.moveToOriginEnd then [.rapid (.plane 0 0)] else []), d) := by
  rw [footerRequests]
  cases s.doLaserOffEnd <;> cases s.moveToOriginEnd <;> exact ⟨_, rfl⟩

/-- The header and the footer, which leave out empty lines. -/
theorem frame_eq (s : Settings α) :
    frame s = .ok
      ((s.header.map Instruction.verbatim ++ opening s).filter (!(dialect s).isSilent ·),
        ((if s.doLaserOffEnd then [Instruction.toolOff] else []) ++ homeward s).filter
          (!(dialect s).isSilent ·)) := by
  obtain ⟨c, header⟩ := perform_headerRequests s
  obtain ⟨d, footer⟩ := perform_footerRequests s c
  rw [frame, header]
  show (c.perform (footerRequests s) >>= _) = _
  rw [footer, homeward, ← List.append_assoc]
  rfl

end Frame

/-! ## Lines that switch -/

/-- The lines that switch the laser. -/
def tool {α : Type} (s : Settings α) : ToolCommands := ⟨s.toolOffCommand, s.toolPowerCommand⟩

/-- Only the instructions that switch the laser have the lines that do. -/
structure SwitchesApart (s : Settings Float) : Prop where
  proper : (tool s).Proper
  preparation : ∀ i ∈ [Instruction.unit s.unit, .setOrigin, .dwell s.dwellTime],
    (dialect s).line i ≠ (tool s).off ∧ (dialect s).line i ≠ (tool s).on
  user : ∀ line ∈ s.header ++ s.footer, line ≠ (tool s).off ∧ line ≠ (tool s).on

/-- The line is a rapid move. -/
def isTravelLine (line : String) : Bool := (lineWords line).head? == some ⟨'G', "0"⟩

section Dark

variable {ν : Type} {s : Settings Float} (apart : SwitchesApart s) (value : String → ν)

include apart

/-- Nothing in a header switches the laser on. -/
theorem ne_on_of_mem_header {header footer : List (Instruction Float)}
    (framed : frame s = .ok (header, footer)) :
    ∀ a ∈ obeyed s value header, a ≠ .laser true := by
  rw [frame_eq] at framed
  cases framed
  intro a ha
  rw [obeyed, List.map_map] at ha
  obtain ⟨i, hi, rfl⟩ := List.mem_map.mp ha
  show Action.ofLine value (tool s) ((dialect s).line i) ≠ .laser true
  rcases List.mem_append.mp (List.mem_filter.mp hi).1 with user | own
  · obtain ⟨line, mem, rfl⟩ := List.mem_map.mp user
    exact Action.ne_on_of_isSwitch
      (Action.isSwitch_ofLine value (apart.user line (List.mem_append_left _ mem)))
  · rcases mem_opening own with motion | preparation
    · simp only [List.mem_cons, List.not_mem_nil, or_false] at motion
      rcases motion with rfl | rfl | rfl <;> rw [Action.ofLine_line apart.proper rfl rfl] <;>
        intro on <;> cases on
    · exact Action.ne_on_of_isSwitch
        (Action.isSwitch_ofLine value (apart.preparation i preparation))

/-- The footer begins with a switch if it has one. -/
theorem footer_of_frame {header footer : List (Instruction Float)}
    (framed : frame s = .ok (header, footer)) :
    footer = (if s.doLaserOffEnd then [.toolOff] else []) ++
      (homeward s).filter (!(dialect s).isSilent ·) := by
  have loud : (dialect s).isSilent (.toolOff : Instruction Float) = false :=
    Dialect.isSilent_of_isMotion apart.proper rfl rfl
  rw [frame_eq] at framed
  cases framed
  rw [List.filter_append]
  congr 1
  split
  · rw [List.filter_cons_of_pos (by rw [loud]; rfl), List.filter_nil]
  · rfl

theorem isSwitch_of_mem_homeward :
    ∀ a ∈ obeyed s value ((homeward s).filter (!(dialect s).isSilent ·)), a.isSwitch = false := by
  intro a ha
  rw [obeyed, List.map_map] at ha
  obtain ⟨i, hi, rfl⟩ := List.mem_map.mp ha
  show (Action.ofLine value (tool s) ((dialect s).line i)).isSwitch = false
  rcases List.mem_append.mp (List.mem_filter.mp hi).1 with origin | user
  · split at origin
    · rw [List.mem_singleton.mp origin, Action.ofLine_line apart.proper rfl rfl]
      rfl
    · cases origin
  · obtain ⟨line, mem, rfl⟩ := List.mem_map.mp user
    exact Action.isSwitch_ofLine value (apart.user line (List.mem_append_right _ mem))

theorem isRapid_homeward_iff :
    (∀ a ∈ obeyed s value ((homeward s).filter (!(dialect s).isSilent ·)), a.isRapid = false) ↔
      s.moveToOriginEnd = false ∧ ∀ line ∈ s.footer, isTravelLine line = false := by
  have user : ∀ line ∈ s.footer,
      (Action.ofLine value (tool s) line).isRapid = isTravelLine line := fun line mem =>
    Action.isRapid_ofLine value (apart.user line (List.mem_append_right _ mem))
  rw [obeyed, List.map_map, List.forall_mem_map, homeward, List.filter_append,
    List.forall_mem_append]
  refine and_congr ?_ ⟨fun h line mem => ?_, fun h i hi => ?_⟩
  · rcases s.moveToOriginEnd
    · exact iff_of_true (fun _ h => absurd h List.not_mem_nil) rfl
    · refine iff_of_false (fun h => ?_) Bool.true_eq_false.mp
      have home : Action.ofLine value (tool s) ((dialect s).line (.rapid (.plane 0 0))) = _ :=
        Action.ofLine_line apart.proper rfl rfl
      have rapid := h (.rapid (.plane 0 0)) (List.mem_filter.mpr ⟨List.mem_cons_self, rfl⟩)
      change (Action.ofLine value (tool s) _).isRapid = false at rapid
      rw [home] at rapid
      cases rapid
  · rcases empty : line.isEmpty
    · rw [← user line mem]
      exact h (.verbatim line) (List.mem_filter.mpr ⟨List.mem_map_of_mem mem, by
        rw [Dialect.isSilent, empty]
        rfl⟩)
    · rw [String.isEmpty_iff.mp empty]
      decide
  · obtain ⟨line, mem, rfl⟩ := List.mem_map.mp (List.mem_filter.mp hi).1
    exact (user line mem).trans (h line mem)

variable [Add ν] {m : Machine ν} {header footer : List (Instruction Float)}
  (framed : frame s = .ok (header, footer))

include framed

/-- Once the laser is on, only the footer's own switch keeps its moves dark. -/
theorem travelsDark_footer_iff :
    m.TravelsDark (obeyed s value footer) ↔
      s.doLaserOffEnd = true ∨ m.laser = false ∨
        (s.moveToOriginEnd = false ∧ ∀ line ∈ s.footer, isTravelLine line = false) := by
  rw [footer_of_frame apart framed]
  have quiet := isSwitch_of_mem_homeward apart value
  rcases hoff : s.doLaserOffEnd
  · rw [if_neg Bool.false_ne_true, List.nil_append]
    rcases laser : m.laser
    · exact iff_of_true (Machine.travelsDark_of_ne_on laser fun a ha =>
        Action.ne_on_of_isSwitch (quiet a ha)).1 (.inr (.inl rfl))
    · rw [Machine.travelsDark_iff_of_isSwitch laser quiet, isRapid_homeward_iff apart value]
      simp
  · have dark : (m.perform (.laser false)).TravelsDark
        (obeyed s value ((homeward s).filter (!(dialect s).isSilent ·))) :=
      (Machine.travelsDark_of_ne_on rfl fun a ha => Action.ne_on_of_isSwitch (quiet a ha)).1
    have switch : obeyed s value ([.toolOff] ++ (homeward s).filter (!(dialect s).isSilent ·)) =
        .laser false :: obeyed s value ((homeward s).filter (!(dialect s).isSilent ·)) := by
      rw [obeyed, List.singleton_append, List.map_cons, List.map_cons]
      exact congrArg (· :: _) (Action.ofLine_line apart.proper rfl rfl)
    rw [if_pos rfl, switch, Machine.travelsDark_cons]
    exact iff_of_true ⟨fun rapid => absurd rapid Bool.false_ne_true, dark⟩ (.inl rfl)

end Dark

/-! ## Whole programs -/

/-- The parts of a program. -/
theorem parts_of_convert {svg : String} {s : Settings Float} {lines : List String}
    (proper : (tool s).Proper) (converted : convert svg s = .ok lines) :
    ∃ root curves header footer,
      Svg.readRoot svg = .ok root ∧ placedCurves root s = .ok curves ∧
      frame s = .ok (header, footer) ∧
      lines = (header ++ (passesOf (motion s) curves s.passes).flatten ++ footer).map
        (dialect s).line := by
  obtain ⟨root, curves, is, read, valid, placed, written, -, rfl⟩ := stages_of_convert converted
  have speed := Binary64.beq_self (Binary64.isNaN_of_isFinite (isFinite_cuttingSpeed valid))
  obtain ⟨header, footer, framed, rfl⟩ :=
    program_eq (by decide) (by decide) speed (one_le_passes valid) proper written
  exact ⟨root, curves, header, footer, read, placed, framed, rfl⟩

section Program

variable {ν : Type} {s : Settings Float} (apart : SwitchesApart s) (value : String → ν)
  (curves : List (Curve Float))

theorem obeyed_append (is js : List (Instruction Float)) :
    obeyed s value (is ++ js) = obeyed s value is ++ obeyed s value js := by
  simp only [obeyed, List.map_append]

include apart

theorem obeyed_passesOf :
    obeyed s value (passesOf (motion s) curves s.passes).flatten =
      actions (dialect s) value (passesOf (motion s) curves s.passes).flatten :=
  obeyed_of_isMotion apart.proper fun i hi => by
    obtain ⟨pass, hp, hi⟩ := List.mem_flatten.mp hi
    exact isMotion_passesOf _ _ _ pass hp i hi

variable [Add ν] {m : Machine ν} (off : m.laser = false)
  {header footer : List (Instruction Float)} (framed : frame s = .ok (header, footer))

include off framed

/-- Header and passes travel with the laser off. -/
theorem travelsDark_front :
    m.TravelsDark (obeyed s value (header ++ (passesOf (motion s) curves s.passes).flatten)) := by
  have relative : (m.run (obeyed s value header)).relative = false :=
    relative_run_header apart.proper framed m
  rw [obeyed_append, Machine.travelsDark_append, obeyed_passesOf apart]
  exact ⟨(Machine.travelsDark_of_ne_on off (ne_on_of_mem_header apart value framed)).1,
    Machine.travelsDark_of_safe (safe_passes (dialect s) value (fun _ h => h) relative).1⟩

/-- The laser is on after the passes if they drew anything. -/
theorem laser_run_front :
    (m.run (obeyed s value (header ++ (passesOf (motion s) curves s.passes).flatten))).laser =
      !curves.isEmpty := by
  rw [obeyed_append, Machine.run_append, obeyed_passesOf apart]
  exact laser_run_passesOf (dialect s) value
    (Machine.travelsDark_of_ne_on off (ne_on_of_mem_header apart value framed)).2 (motion s) curves
    s.passes

theorem travelsDark_iff :
    m.TravelsDark (obeyed s value
        (header ++ (passesOf (motion s) curves s.passes).flatten ++ footer)) ↔
      s.doLaserOffEnd = true ∨ curves = [] ∨
        (s.moveToOriginEnd = false ∧ ∀ line ∈ s.footer, isTravelLine line = false) := by
  rw [obeyed_append, Machine.travelsDark_append, travelsDark_footer_iff apart value framed,
    laser_run_front apart value curves off framed,
    and_iff_right (travelsDark_front apart value curves off framed), Bool.not_eq_false',
    List.isEmpty_iff]

end Program

/-- The lines for a drawing consist of a header, passes and a footer. With the laser off at first
they travel with the laser off up to the footer; in the footer they do if it switches the laser off,
if nothing was drawn, or if it does not travel. -/
def IsDarkProgram (svg : String) (s : Settings Float) (lines : List String) : Prop :=
  ∃ root curves header footer,
    Svg.readRoot svg = .ok root ∧ placedCurves root s = .ok curves ∧
    frame s = .ok (header, footer) ∧
    lines = (header ++ (passesOf (motion s) curves s.passes).flatten ++ footer).map
      (dialect s).line ∧
    ∀ {ν : Type} [Add ν] (value : String → ν) (m : Machine ν), m.laser = false →
      m.TravelsDark (obeyed s value (header ++ (passesOf (motion s) curves s.passes).flatten)) ∧
      (m.TravelsDark (lines.map (.ofLine value (tool s))) ↔
        s.doLaserOffEnd = true ∨ curves = [] ∨
          (s.moveToOriginEnd = false ∧ ∀ line ∈ s.footer, isTravelLine line = false))

/-- Where programs travel with the laser off. -/
theorem convert_isDarkProgram {svg : String} {s : Settings Float} {lines : List String}
    (apart : SwitchesApart s) (converted : convert svg s = .ok lines) :
    IsDarkProgram svg s lines := by
  obtain ⟨root, curves, header, footer, read, placed, framed, rfl⟩ :=
    parts_of_convert apart.proper converted
  exact ⟨root, curves, header, footer, read, placed, framed, rfl, fun value m off =>
    ⟨travelsDark_front apart value curves off framed,
      travelsDark_iff apart value curves off framed⟩⟩

/-! ## A way home with the laser on -/

/-- Settings that ask for a way back to the origin and for no switch before it. -/
def burning : Settings Float :=
  { Settings.standard with moveToOriginEnd := true, doLaserOffEnd := false }

theorem switchesApart_burning : SwitchesApart burning where
  proper := ⟨by decide, by decide, by decide, by decide, by decide⟩
  preparation := by decide
  user := by decide

/-- A drawing of one line. -/
def lineRoot : Element := ⟨"svg", none, [], [⟨"path", none, [⟨none, "d", "M1,1L2,2"⟩], []⟩]⟩

theorem readRoot_line : Svg.readRoot "<svg><path d=\"M1,1L2,2\"/></svg>" = .ok lineRoot := by
  have plain : Markup.unescaped "M1,1L2,2" = "M1,1L2,2" := by decide +kernel
  rw [Svg.readRoot_path "M1,1L2,2" (Outcome.toOption_eq_some_iff.mp (by decide +kernel)), plain]
  rfl

theorem convert_burning :
    ∃ lines, convert "<svg><path d=\"M1,1L2,2\"/></svg>" burning = .ok lines := by
  obtain ⟨is, written⟩ : ∃ is, convertRoot lineRoot burning = .ok is :=
    Outcome.isOk_iff.mp (by decide +kernel)
  exact ⟨_, convert_eq_of_readRoot readRoot_line written⟩

theorem convert_burning_isDarkProgram :
    SwitchesApart burning ∧
      ∃ lines, convert "<svg><path d=\"M1,1L2,2\"/></svg>" burning = .ok lines ∧
        IsDarkProgram "<svg><path d=\"M1,1L2,2\"/></svg>" burning lines := by
  obtain ⟨lines, converted⟩ := convert_burning
  exact ⟨switchesApart_burning, lines, converted,
    convert_isDarkProgram switchesApart_burning converted⟩

/-- Not all programs travel with the laser off. -/
theorem not_convert_travelsDark : ¬ ∀ (svg : String) (s : Settings Float) (lines : List String),
    SwitchesApart s → convert svg s = .ok lines →
      ∀ {ν : Type} [Add ν] (value : String → ν) (m : Machine ν), m.laser = false →
        m.TravelsDark (lines.map (.ofLine value (tool s))) := by
  intro claim
  obtain ⟨lines, converted⟩ := convert_burning
  let m : Machine Nat := ⟨false, false, none, ⟨none, none, none⟩⟩
  have dark := claim _ burning _ switchesApart_burning converted String.length m rfl
  obtain ⟨root, curves, header, footer, read, placed, framed, rfl⟩ :=
    parts_of_convert switchesApart_burning.proper converted
  rw [readRoot_line] at read
  cases read
  have drawn : (placedCurves lineRoot burning).toOption.map List.isEmpty = some false := by
    decide +kernel
  rw [placed] at drawn
  rcases (travelsDark_iff switchesApart_burning _ curves rfl framed).mp dark with
    switch | none | ⟨stays, -⟩
  · cases switch
  · rw [none] at drawn
    cases drawn
  · cases stays

end LaserCut.Conversion
