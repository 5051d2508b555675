import LaserCut.Conversion.Basic
import LaserCut.Proofs.Gcode.Safety
import LaserCut.Proofs.Svg.Document

/-!
# What a machine does with a converted drawing

The program of a drawing is its header, the passes, and its footer (`program_eq`). The header leaves
a machine with absolute distances, whatever the user's own lines do, so the passes do no harm
(`convert_cutsSafely`).
-/

namespace LaserCut.Conversion

open Gcode

theorem relative_not_mem_headerRequests {α : Type} (s : Settings α) :
    .relative ∉ headerRequests s := by
  simp [headerRequests]

section Header

variable {α : Type} [Scalar α]

/-- Only a request for relative distances makes them so. -/
theorem keepsAbsolute_of_handle {c d : Controller α} {r : Request α} {i : Instruction α}
    (h : c.handle r = (.ok (some i), d)) (hr : r ≠ .relative) : i.keepsAbsolute = true := by
  cases r with
  | relative => exact absurd rfl hr
  | move words =>
    simp only [Controller.handle, Controller.move] at h
    split at h
    · cases h
    · split at h
      · cases h
      · split at h
        · cases h; rfl
        · split at h <;> (cases h; rfl)
  | toolOn power =>
    simp only [Controller.handle] at h
    split at h <;> cases h
    rfl
  | _ => cases h <;> rfl

theorem keepsAbsolute_of_perform {requests : List (Request α)} (hr : .relative ∉ requests) :
    ∀ {c d : Controller α} {is : List (Instruction α)}, c.perform requests = .ok (is, d) →
      ∀ i ∈ is, i.keepsAbsolute = true := by
  induction requests with
  | nil =>
    intro c d is h
    cases h
    exact nofun
  | cons r requests ih =>
    intro c d is h i hi
    rw [List.mem_cons, not_or] at hr
    rw [Controller.perform] at h
    split at h
    · cases h
    · rename_i instruction e handled
      obtain ⟨⟨js, f⟩, performed, eq⟩ := Outcome.map_eq_ok_iff.mp h
      cases eq
      rcases List.mem_append.mp hi with hi | hi
      · rcases instruction with _ | j
        · cases hi
        · rw [List.mem_singleton.mp hi]
          exact keepsAbsolute_of_handle handled (Ne.symm hr.1)
      · exact ih hr.2 performed i hi

/-- The parts of the header that the user's lines can not spoil. -/
theorem header_of_frame {s : Settings α} {header footer : List (Instruction α)}
    (h : frame s = .ok (header, footer)) :
    ∃ front rest, header = front ++ .absolute :: rest ∧ ∀ i ∈ rest, i.keepsAbsolute = true := by
  obtain ⟨⟨opening, c⟩, opened, h⟩ := Outcome.bind_eq_ok_iff.mp h
  obtain ⟨⟨closing, d⟩, -, h⟩ := Outcome.bind_eq_ok_iff.mp h
  have first : (Controller.initial : Controller α).handle .absolute =
      (.ok (some .absolute), .initial) := rfl
  have requests : headerRequests s = .absolute :: (headerRequests s).tail := rfl
  rw [requests, perform_cons first] at opened
  obtain ⟨⟨rest, e⟩, performed, eq⟩ := Outcome.map_eq_ok_iff.mp opened
  have keeps := keepsAbsolute_of_perform
    (fun mem => relative_not_mem_headerRequests s (List.mem_of_mem_tail mem)) performed
  cases eq
  cases h
  refine ⟨_, rest.filter (!(dialect s).isSilent ·), List.filter_append .., fun i hi => ?_⟩
  exact keeps i (List.mem_filter.mp hi).1

theorem isSilent_of_frame {s : Settings α} {header footer : List (Instruction α)}
    (h : frame s = .ok (header, footer)) :
    (∀ i ∈ header, (dialect s).isSilent i = false) ∧
      ∀ i ∈ footer, (dialect s).isSilent i = false := by
  obtain ⟨⟨opening, c⟩, -, h⟩ := Outcome.bind_eq_ok_iff.mp h
  obtain ⟨⟨closing, d⟩, -, h⟩ := Outcome.bind_eq_ok_iff.mp h
  cases h
  exact ⟨fun i hi => by simpa using (List.mem_filter.mp hi).2,
    fun i hi => by simpa using (List.mem_filter.mp hi).2⟩

end Header

/-! ## The program -/

section Program

variable {α : Type} [Scalar α] {s : Settings α}

theorem holds_of_validated {t : Settings α} (h : s.validated = .ok t) :
    t = s ∧ ∀ check ∈ s.checks, check.2.1 = true := by
  unfold Settings.validated at h
  split at h
  · rename_i none
    cases h
    rw [Settings.fault?, Option.map_eq_none_iff, List.find?_eq_none] at none
    exact ⟨rfl, fun check hc => by simpa using none check hc⟩
  · cases h

theorem validated_of_holds (h : ∀ check ∈ s.checks, check.2.1 = true) : s.validated = .ok s := by
  have faultless : s.fault? = none := by
    rw [Settings.fault?, Option.map_eq_none_iff, List.find?_eq_none]
    exact fun check hc => by simpa using h check hc
  rw [Settings.validated, faultless]

theorem one_le_passes {t : Settings α} (h : s.validated = .ok t) : 1 ≤ s.passes :=
  of_decide_eq_true ((holds_of_validated h).2 ("passes", _, _) (.head _))

theorem isFinite_of_isPositive {x : α} (h : Settings.isPositive x = true) :
    Scalar.isFinite x = true := by
  rw [Settings.isPositive, Bool.and_eq_true] at h
  exact h.1

theorem isFinite_cuttingSpeed {t : Settings α} (h : s.validated = .ok t) :
    Scalar.isFinite s.cuttingSpeed = true :=
  isFinite_of_isPositive
    ((holds_of_validated h).2 ("cutting_speed", _, _) (.tail _ (.tail _ (.tail _ (.head _)))))

theorem isFinite_approximationTolerance {t : Settings α} (h : s.validated = .ok t) :
    Scalar.isFinite s.approximationTolerance = true :=
  isFinite_of_isPositive
    ((holds_of_validated h).2 ("approximation_tolerance", _, _) (.tail _ (.head _)))

theorem isFinite_zAxisStart {t : Settings α} (h : s.validated = .ok t) :
    Scalar.isFinite s.zAxisStart = true :=
  (holds_of_validated h).2 ("z_axis_start", _, _) (List.mem_of_getLast? rfl)

/-- Between the header and the footer of a program stand the passes. Empty lines are left out. -/
theorem program_eq_filter (h0 : (0 : α) ≤ 1) (h1 : (1 : α) ≤ 1)
    (hs : (s.cuttingSpeed == s.cuttingSpeed) = true) (hp : 1 ≤ s.passes)
    {curves : List (Curve α)} {is : List (Instruction α)} (h : program s curves = .ok is) :
    ∃ header footer, frame s = .ok (header, footer) ∧
      is = (header ++ (passesOf (motion s) curves s.passes).flatten ++ footer).filter
        (!(dialect s).isSilent ·) := by
  obtain ⟨⟨header, footer⟩, framed, h⟩ := Outcome.bind_eq_ok_iff.mp h
  have speed : ((motion s).cuttingSpeed == (motion s).cuttingSpeed) = true := hs
  obtain ⟨c, d, appended, written⟩ :=
    Compiler.program_eq_filter h0 h1 speed (dialect s) header footer curves hp
  obtain ⟨c', appended', h⟩ := Outcome.bind_eq_ok_iff.mp h
  rw [appended] at appended'
  cases appended'
  obtain ⟨⟨js, e⟩, written', h⟩ := Outcome.bind_eq_ok_iff.mp h
  rw [written] at written'
  cases written'
  cases h
  exact ⟨header, footer, framed, rfl⟩

/-- With proper tool lines nothing is left out between the header and the footer. -/
theorem program_eq (h0 : (0 : α) ≤ 1) (h1 : (1 : α) ≤ 1)
    (hs : (s.cuttingSpeed == s.cuttingSpeed) = true) (hp : 1 ≤ s.passes)
    (proper : ToolCommands.Proper ⟨s.toolOffCommand, s.toolPowerCommand⟩)
    {curves : List (Curve α)} {is : List (Instruction α)} (h : program s curves = .ok is) :
    ∃ header footer, frame s = .ok (header, footer) ∧
      is = header ++ (passesOf (motion s) curves s.passes).flatten ++ footer := by
  obtain ⟨header, footer, framed, rfl⟩ := program_eq_filter h0 h1 hs hp h
  obtain ⟨hh, hf⟩ := isSilent_of_frame framed
  have motions : ∀ i ∈ (passesOf (motion s) curves s.passes).flatten,
      (dialect s).isSilent i = false := by
    intro i hi
    obtain ⟨pass, mem, hi⟩ := List.mem_flatten.mp hi
    exact Dialect.isSilent_of_isMotion proper rfl
      (isMotion_passesOf _ curves s.passes pass mem i hi)
  refine ⟨header, footer, framed, List.filter_eq_self.mpr fun i hi => ?_⟩
  rw [Bool.not_eq_true']
  rcases List.mem_append.mp hi with hi | hi
  · exact (List.mem_append.mp hi).elim (hh i) (motions i)
  · exact hf i hi

end Program

/-- The stages of a conversion that succeeds. -/
theorem stages_of_convert {svg : String} {s : Settings Float} {lines : List String}
    (converted : convert svg s = .ok lines) :
    ∃ root curves is, Svg.readRoot svg = .ok root ∧ s.validated = .ok s ∧
      placedCurves root s = .ok curves ∧ program s curves = .ok is ∧
      convertRoot root s = .ok is ∧ lines = is.map (dialect s).line := by
  obtain ⟨root, read, rest⟩ := Outcome.bind_eq_ok_iff.mp converted
  obtain ⟨is, placed, eq⟩ := Outcome.bind_eq_ok_iff.mp rest
  obtain ⟨t, valid, rest⟩ := Outcome.bind_eq_ok_iff.mp placed
  obtain ⟨curves, drawn, written⟩ := Outcome.bind_eq_ok_iff.mp rest
  rw [Outcome.mapError_eq_ok_iff] at read valid drawn written
  obtain ⟨rfl, -⟩ := holds_of_validated valid
  cases eq
  exact ⟨root, curves, is, read, valid, drawn, written, placed, rfl⟩

/-! ## The machine -/

/-- What a machine does for the lines of instructions when the tool lines of the settings switch
its laser. -/
def obeyed {ν : Type} (s : Settings Float) (value : String → ν) (is : List (Instruction Float)) :
    List (Action ν) :=
  (is.map (dialect s).line).map (.ofLine value ⟨s.toolOffCommand, s.toolPowerCommand⟩)

section Obeyed

variable {ν : Type} {s : Settings Float} {value : String → ν}
  (proper : ToolCommands.Proper ⟨s.toolOffCommand, s.toolPowerCommand⟩)

include proper

theorem obeyed_of_isMotion {is : List (Instruction Float)} (h : ∀ i ∈ is, i.isMotion = true) :
    obeyed s value is = actions (dialect s) value is := by
  rw [obeyed, List.map_map]
  exact List.map_congr_left fun i hi => Action.ofLine_line proper rfl (h i hi)

/-- Whatever the user's own lines do, distances are absolute after the header. -/
theorem relative_run_header [Add ν] {header footer : List (Instruction Float)}
    (h : frame s = .ok (header, footer)) (m : Machine ν) :
    (m.run (obeyed s value header)).relative = false := by
  obtain ⟨front, rest, rfl, keeps⟩ := header_of_frame h
  have absolute : ((m.run (obeyed s value front)).perform (.ofLine value
      ⟨s.toolOffCommand, s.toolPowerCommand⟩ ((dialect s).line .absolute))).relative = false := by
    rw [Action.ofLine_line proper rfl rfl]
    rfl
  have tool : (dialect s).tool = some ⟨s.toolOffCommand, s.toolPowerCommand⟩ := rfl
  have parts : obeyed s value (front ++ .absolute :: rest) =
      obeyed s value front ++ Action.ofLine value ⟨s.toolOffCommand, s.toolPowerCommand⟩
        ((dialect s).line .absolute) :: rest.map fun i =>
          Action.ofLine value ⟨s.toolOffCommand, s.toolPowerCommand⟩ ((dialect s).line i) := by
    simp only [obeyed, List.map_append, List.map_cons, List.map_map]
    rfl
  rw [parts, Machine.run_append]
  exact Machine.relative_run proper tool keeps absolute

end Obeyed

/-- The lines for a drawing consist of a header, as many passes as are asked for and a footer, and
a machine that obeys them does no harm from the header to the footer, wherever it starts and
whatever numbers it reads. -/
def IsSafeProgram (svg : String) (s : Settings Float) (lines : List String) : Prop :=
  ∃ root curves header footer,
    Svg.readRoot svg = .ok root ∧ placedCurves root s = .ok curves ∧
    frame s = .ok (header, footer) ∧
    lines = (header ++ (passesOf (motion s) curves s.passes).flatten ++ footer).map
      (dialect s).line ∧
    (passesOf (motion s) curves s.passes).length = s.passes ∧
    ∀ {ν : Type} [Add ν] (value : String → ν) (m : Machine ν),
      (m.run (obeyed s value header)).CutsSafely (value (Decimal.shortest s.cuttingSpeed))
        (obeyed s value (bodyOf (motion s) curves))
        ((passesOf (motion s) curves s.passes).map (obeyed s value))

theorem convert_eq_of_readRoot {svg : String} {root : Element} {s : Settings Float}
    {is : List (Instruction Float)} (read : Svg.readRoot svg = .ok root)
    (written : convertRoot root s = .ok is) : convert svg s = .ok (is.map (dialect s).line) := by
  rw [convert, read]
  show (convertRoot root s >>= fun is => .ok (is.map (dialect s).line)) = _
  rw [written]
  rfl

/-- Every program is safe if its tool lines can be told from each other and from moves. -/
theorem convert_cutsSafely {svg : String} {s : Settings Float} {lines : List String}
    (proper : ToolCommands.Proper ⟨s.toolOffCommand, s.toolPowerCommand⟩)
    (converted : convert svg s = .ok lines) : IsSafeProgram svg s lines := by
  obtain ⟨root, read, converted⟩ := Outcome.bind_eq_ok_iff.mp converted
  obtain ⟨is, converted, eq⟩ := Outcome.bind_eq_ok_iff.mp converted
  obtain ⟨t, valid, converted⟩ := Outcome.bind_eq_ok_iff.mp converted
  obtain ⟨curves, placed, written⟩ := Outcome.bind_eq_ok_iff.mp converted
  rw [Outcome.mapError_eq_ok_iff] at read valid placed written
  obtain ⟨rfl, -⟩ := holds_of_validated valid
  cases eq
  have hs := Binary64.beq_self (Binary64.isNaN_of_isFinite (isFinite_cuttingSpeed valid))
  have hp := one_le_passes valid
  obtain ⟨header, footer, framed, rfl⟩ :=
    program_eq (by decide) (by decide) hs hp proper written
  refine ⟨root, curves, header, footer, read, placed, framed, rfl, length_passesOf _ _ hp, ?_⟩
  intro ν _ value m
  have body : obeyed t value (bodyOf (motion t) curves) =
      actions (dialect t) value (bodyOf (motion t) curves) :=
    obeyed_of_isMotion proper fun i hi =>
      Instruction.isMotion_of_isPlanar (isPlanar_bodyOf _ _ i hi)
  have passes : (passesOf (motion t) curves t.passes).map (obeyed t value) =
      (passesOf (motion t) curves t.passes).map (actions (dialect t) value) :=
    List.map_congr_left fun pass hp => obeyed_of_isMotion proper (isMotion_passesOf _ _ _ pass hp)
  rw [body, passes]
  exact cutsSafely_passesOf _ value (relative_run_header proper framed m) (motion t) curves t.passes

/-- Two passes over two lines that do not meet, after a line of the user's that makes distances
relative. -/
theorem convert_two_lines_cutsSafely :
    ToolCommands.Proper ⟨"M5;", "M3 S255;"⟩ ∧
      ∃ lines,
        convert "<svg><path d=\"M1,1L2,2M5,5L6,6\"/></svg>"
          { Settings.standard with passes := 2, header := ["G91;"] } = .ok lines ∧
        IsSafeProgram "<svg><path d=\"M1,1L2,2M5,5L6,6\"/></svg>"
          { Settings.standard with passes := 2, header := ["G91;"] } lines := by
  have proper : ToolCommands.Proper ⟨"M5;", "M3 S255;"⟩ :=
    ⟨by decide, by decide, by decide, by decide, by decide⟩
  let root : Element :=
    ⟨"svg", none, [], [⟨"path", none, [⟨none, "d", "M1,1L2,2M5,5L6,6"⟩], []⟩]⟩
  let s : Settings Float := { Settings.standard with passes := 2, header := ["G91;"] }
  have plain : Markup.unescaped "M1,1L2,2M5,5L6,6" = "M1,1L2,2M5,5L6,6" := by decide +kernel
  have read : Svg.readRoot "<svg><path d=\"M1,1L2,2M5,5L6,6\"/></svg>" = .ok root := by
    rw [Svg.readRoot_path "M1,1L2,2M5,5L6,6" (Outcome.toOption_eq_some_iff.mp (by decide +kernel)),
      plain]
  obtain ⟨is, written⟩ : ∃ is, convertRoot root s = .ok is :=
    Outcome.isOk_iff.mp (by decide +kernel)
  have converted := convert_eq_of_readRoot read written
  exact ⟨proper, _, converted, convert_cutsSafely proper converted⟩

end LaserCut.Conversion
