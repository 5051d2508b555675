import LaserCut.Proofs.Conversion.Refusals
import LaserCut.Proofs.Gcode.Descent

/-!
# How deep a program cuts

A program goes down between its passes, and nowhere else by a relative distance: neither the header
nor the footer asks for one.

* `relativeHeights_of_program`: the relative height words of a program are the steps between its
  passes, downwards;
* `program_descends`: what the steps are, and what they add up to.
-/

namespace LaserCut.Conversion

open Gcode Exact

variable {α : Type}

theorem keepsAbsolute_of_mem_opening {s : Settings α} {i : Instruction α} (h : i ∈ opening s) :
    i.keepsAbsolute = true := by
  rcases mem_opening h with motion | preparation
  · simp only [List.mem_cons, List.not_mem_nil, or_false] at motion
    rcases motion with rfl | rfl | rfl <;> rfl
  · simp only [List.mem_cons, List.not_mem_nil, or_false] at preparation
    rcases preparation with rfl | rfl | rfl <;> rfl

/-- After the user's own lines distances are absolute, to the end of the header. -/
theorem relativeHeights_opening_append (s : Settings α) (is : List (Instruction α))
    (relative : Bool) :
    relativeHeights relative (opening s ++ is) = relativeHeights false is := by
  have absolute : opening s = .absolute :: (opening s).tail := rfl
  rw [absolute, List.cons_append]
  exact relativeHeights_append
    (fun i hi => keepsAbsolute_of_mem_opening (List.mem_of_mem_tail hi)) is

variable [Scalar α]

theorem relativeHeights_footer (s : Settings α) :
    relativeHeights false
      ((if s.doLaserOffEnd then [Instruction.toolOff] else []) ++ homeward s) = [] := by
  have user := relativeHeights_verbatim_append s.footer ([] : List (Instruction α)) false
  rw [List.append_nil] at user
  rw [homeward]
  cases s.doLaserOffEnd <;> cases s.moveToOriginEnd <;> exact user

/-- The relative height words of a program, whatever the user's lines before it leave in effect. -/
theorem relativeHeights_of_program (h0 : (0 : α) ≤ 1) (h1 : (1 : α) ≤ 1) {s : Settings α}
    (speed : (s.cuttingSpeed == s.cuttingSpeed) = true) (passes : 1 ≤ s.passes)
    (down : 0 < s.passDepth) {curves : List (Curve α)} (drawn : curves ≠ [])
    {is : List (Instruction α)} (h : program s curves = .ok is) (relative : Bool) :
    relativeHeights relative is = (passSteps (motion s) s.passes).map (-·) := by
  obtain ⟨header, footer, framed, rfl⟩ := program_eq_filter h0 h1 speed passes h
  rw [frame_eq] at framed
  cases framed
  have once (front middle back : List (Instruction α)) (p : Instruction α → Bool) :
      (front.filter p ++ middle ++ back.filter p).filter p =
        (front ++ middle ++ back).filter p := by
    simp only [List.filter_append, List.filter_filter, Bool.and_self]
  rw [once, relativeHeights_filter, List.append_assoc, List.append_assoc,
    relativeHeights_verbatim_append, relativeHeights_opening_append,
    relativeHeights_passesOf down drawn, relativeHeights_footer, List.append_nil]

/-- Steps are rounded so that they do not drift, and a program that draws something takes them. All
of its words for them are written exactly, so that it ends at the rounded depth of all passes
below the first. -/
theorem program_descends :
    (∀ (motion : Motion ℝ) (passes : Nat), 1 ≤ passes →
      IsDescent motion.passDepth (decimalPlaces motion.tolerance) passes
        (passSteps motion passes)) ∧
    ∀ (s : Settings ℝ) (curves : List (Curve ℝ)), 1 ≤ s.passes → 0 < s.passDepth → curves ≠ [] →
      ∃ is, program s curves = .ok is ∧ ∀ relative,
        relativeHeights relative is = (passSteps (motion s) s.passes).map (-·) ∧
        (∀ height ∈ relativeHeights relative is,
          IsWrittenExactly (dialect s).places height) ∧
        (relativeHeights relative is).sum =
          -(Scalar.round ((s.passes - 1 : ℕ) * s.passDepth * 10 ^ (dialect s).places) /
            10 ^ (dialect s).places) := by
  refine ⟨fun motion passes => passSteps_isDescent motion, fun s curves passes down drawn => ?_⟩
  obtain ⟨is, written⟩ := exists_program zero_le_one le_rfl s curves
  refine ⟨is, written, fun relative => ?_⟩
  have heights := relativeHeights_of_program zero_le_one le_rfl (beq_iff.mpr rfl) passes down drawn
    written relative
  have steps := passSteps_isDescent (motion s) passes
  refine ⟨heights, fun height mem => ?_, ?_⟩
  · rw [heights] at mem
    obtain ⟨step, stepped, rfl⟩ := List.mem_map.mp mem
    obtain ⟨k, multiple⟩ := steps.multiple step stepped
    refine isWrittenExactly_of_multiple (k := -k) ?_
    rw [multiple, Int.cast_neg, neg_div]
    rfl
  · have total := steps.sum_take (s.passes - 1) (by omega)
    rw [← steps.length, List.take_length] at total
    rw [steps.length] at total
    rw [heights]
    exact (List.sum_neg _).symm.trans (congrArg (-·) total)

/-! ## Settings of real numbers -/

/-- Real numbers are finite, so that only the numbers that have to be positive are looked at. -/
theorem validated_iff {s : Settings ℝ} : s.validated = .ok s ↔
    1 ≤ s.passes ∧ 0 < s.approximationTolerance ∧ 0 < s.travelSpeed ∧ 0 < s.cuttingSpeed := by
  have positive (x : ℝ) : Settings.isPositive x = true ↔ 0 < x := decide_eq_true_iff
  constructor
  · intro valid
    have holds := (holds_of_validated valid).2
    exact ⟨one_le_passes valid,
      (positive _).mp (holds ("approximation_tolerance", _, _) (.tail _ (.head _))),
      (positive _).mp (holds ("travel_speed", _, _) (.tail _ (.tail _ (.head _)))),
      (positive _).mp (holds ("cutting_speed", _, _) (.tail _ (.tail _ (.tail _ (.head _)))))⟩
  · rintro ⟨passes, tolerance, travel, cutting⟩
    refine validated_of_holds fun check mem => ?_
    have finite (x : ℝ) : Scalar.isFinite x = true := rfl
    simp only [Settings.checks, List.mem_cons, List.not_mem_nil, or_false] at mem
    rcases mem with rfl | rfl | rfl | rfl | rfl | rfl | rfl | rfl | rfl | rfl | rfl
    · exact decide_eq_true passes
    · exact (positive _).mpr tolerance
    · exact (positive _).mpr travel
    · exact (positive _).mpr cutting
    all_goals exact finite _

theorem decimalPlaces_hundredth : decimalPlaces (1 / 100 : ℝ) = 2 := by
  have exponent : Scalar.log10 (1 / 100 : ℝ) = ((-2 : ℤ) : ℝ) := by
    show Real.logb 10 (1 / 100) = _
    rw [one_div, Real.logb_inv, show (100 : ℝ) = 10 ^ 2 by norm_num, Real.logb_pow,
      Real.logb_self_eq_one (by norm_num)]
    norm_num
  have rounded : (Scalar.round ((-2 : ℤ) : ℝ) : ℝ) = -2 := by
    show (if (0 : ℝ) ≤ (-2 : ℤ) then _ else ((⌈((-2 : ℤ) : ℝ) - 1 / 2⌉ : ℤ) : ℝ)) = _
    rw [if_neg (by norm_num), Int.cast_neg, Int.cast_ofNat]
    norm_num
  show ⌊Scalar.abs (Scalar.round (Scalar.log10 (1 / 100 : ℝ)) : ℝ)⌋₊ = 2
  rw [exponent, rounded, abs_eq, abs_neg, abs_two]
  exact Nat.floor_ofNat 2

/-- Five passes, each to go down by an eighth, which is not a multiple of the last place. -/
noncomputable def fivePasses : Settings ℝ where
  unit := .millimeters
  travelSpeed := 3000
  cuttingSpeed := 750
  passes := 5
  passDepth := 1 / 8
  dwellTime := 0
  approximationTolerance := 1 / 100
  toolPowerCommand := "M3 S255;"
  toolOffCommand := "M5;"
  machineOrigin := .bottomLeft
  zeroMachine := false
  invertYAxis := false
  useDocumentSize := false
  bedWidth := 200
  bedHeight := 200
  horizontalOffset := 0
  verticalOffset := 0
  scalingFactor := 1
  doZAxisStart := false
  zAxisStart := 0
  moveToOriginEnd := false
  doLaserOffStart := true
  doLaserOffEnd := true
  layerName := none
  header := []
  footer := []

theorem validated_fivePasses : fivePasses.validated = .ok fivePasses := by
  refine validated_iff.mpr ⟨by decide, ?_, ?_, ?_⟩
  · show (0 : ℝ) < 1 / 100
    norm_num
  · show (0 : ℝ) < 3000
    norm_num
  · show (0 : ℝ) < 750
    norm_num

theorem fivePasses_descend :
    1 ≤ fivePasses.passes ∧ 0 < fivePasses.passDepth ∧
      ∃ is, program fivePasses [.line ⟨0, 0⟩ ⟨1, 1⟩] = .ok is ∧
        ∀ relative, (relativeHeights relative is).sum = -(1 / 2) := by
  have passes : 1 ≤ fivePasses.passes := by decide
  have down : 0 < fivePasses.passDepth := by
    show (0 : ℝ) < 1 / 8
    norm_num
  obtain ⟨is, written, heights⟩ :=
    program_descends.2 fivePasses [.line ⟨0, 0⟩ ⟨1, 1⟩] passes down (List.cons_ne_nil _ _)
  refine ⟨passes, down, is, written, fun relative => ?_⟩
  have total := (heights relative).2.2
  have places : (dialect fivePasses).places = 2 := decimalPlaces_hundredth
  have depth : ((fivePasses.passes - 1 : ℕ) : ℝ) * fivePasses.passDepth * 10 ^ 2 = 50 := by
    show ((4 : ℕ) : ℝ) * (1 / 8) * 10 ^ 2 = 50
    norm_num
  have rounded : (Scalar.round (50 : ℝ) : ℝ) = 50 := by
    rw [round_of_nonneg (by norm_num)]
    norm_num
  rw [total, places, depth, rounded]
  norm_num

end LaserCut.Conversion
