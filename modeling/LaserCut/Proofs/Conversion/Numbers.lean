import LaserCut.Proofs.Conversion.Travel
import LaserCut.Proofs.Gcode.Numbers

/-!
# Numbers of converted drawings

Validated settings are finite, so what frames a drawing is written with finite numbers. The drawing
itself need not be: path data and transforms may overflow, and so may the steps between passes.

* `areFinite_frame`: header and footer have no other numbers;
* `convert_hasFiniteWords_iff`: when all numbers of a program are finite;
* `not_convert_hasFiniteWords`: a drawing whose program has others.
-/

namespace LaserCut.Conversion

open Gcode

section Frame

theorem areFinite_verbatim (lines : List String) :
    AreFinite (lines.map Instruction.verbatim) := by
  intro i hi
  obtain ⟨line, -, rfl⟩ := List.mem_map.mp hi
  exact Instruction.isFinite_of_numbers_eq_nil rfl

variable {s : Settings Float}

theorem areFinite_opening (h : s.zAxisStart.isFinite = true) : AreFinite (opening s) := by
  intro i hi
  rcases mem_opening hi with hi | hi
  · simp only [List.mem_cons, List.not_mem_nil, or_false] at hi
    rcases hi with rfl | rfl | rfl
    · exact Instruction.isFinite_of_numbers_eq_nil rfl
    · exact Instruction.isFinite_of_numbers_eq_nil rfl
    · intro x hx
      rw [List.mem_singleton.mp hx]
      exact h
  · simp only [List.mem_cons, List.not_mem_nil, or_false] at hi
    rcases hi with rfl | rfl | rfl <;> exact Instruction.isFinite_of_numbers_eq_nil rfl

theorem areFinite_homeward (s : Settings Float) : AreFinite (homeward s) := by
  refine areFinite_append.mpr ⟨?_, areFinite_verbatim s.footer⟩
  split
  · intro i hi x hx
    rw [List.mem_singleton.mp hi] at hx
    have hx : x ∈ [_, _] := hx
    rcases List.mem_pair.mp hx with rfl | rfl <;> decide
  · exact areFinite_nil

/-- Header and footer are written with finite numbers. -/
theorem areFinite_frame (h : s.zAxisStart.isFinite = true)
    {header footer : List (Instruction Float)} (framed : frame s = .ok (header, footer)) :
    AreFinite header ∧ AreFinite footer := by
  rw [frame_eq] at framed
  cases framed
  rw [areFinite_filter, areFinite_filter, areFinite_append, areFinite_append]
  refine ⟨⟨areFinite_verbatim s.header, areFinite_opening h⟩, ?_, areFinite_homeward s⟩
  split
  · exact areFinite_cons.mpr ⟨Instruction.isFinite_of_numbers_eq_nil rfl, areFinite_nil⟩
  · exact areFinite_nil

end Frame

/-! ## Programs -/

/-- The numbers of a program are finite if and only if the points of all curves are and, unless
nothing is drawn or the passes stay level, the steps between passes. -/
theorem areFinite_program_iff {s : Settings Float} (valid : s.validated = .ok s)
    {curves : List (Curve Float)} {is : List (Instruction Float)}
    (written : program s curves = .ok is) :
    AreFinite is ↔
      (∀ c ∈ curves, HasFinitePoints s.approximationTolerance c) ∧
        (curves ≠ [] → (motion s).Descends →
          ∀ step ∈ passSteps (motion s) s.passes, step.isFinite = true) := by
  have finite : s.cuttingSpeed.isFinite = true := isFinite_cuttingSpeed valid
  have speed := Binary64.beq_self (Binary64.isNaN_of_isFinite finite)
  obtain ⟨header, footer, framed, rfl⟩ :=
    program_eq_filter (by decide) (by decide) speed (one_le_passes valid) written
  obtain ⟨before, after⟩ := areFinite_frame (isFinite_zAxisStart valid) framed
  have tolerance : (motion s).tolerance.isFinite = true := isFinite_approximationTolerance valid
  have feed : (motion s).cuttingSpeed.isFinite = true := finite
  have passes := areFinite_passesOf feed tolerance curves s.passes
  rw [areFinite_filter, areFinite_append, areFinite_append, passes]
  exact ⟨fun h => h.1.2, fun h => ⟨⟨before, h⟩, after⟩⟩

/-- No line of a program but the user's own and those that switch the tool has a coordinate or a
feed that is an infinity or no number, if and only if the drawing has no such point once it is
placed and the depths of its passes do not overflow. -/
theorem convert_hasFiniteWords_iff {svg : String} {s : Settings Float} {lines : List String}
    (converted : convert svg s = .ok lines) :
    ∃ root curves is,
      Svg.readRoot svg = .ok root ∧ placedCurves root s = .ok curves ∧
      convertRoot root s = .ok is ∧ lines = is.map (dialect s).line ∧
      ((∀ i ∈ is, i.isOwn = true → HasFiniteWords ((dialect s).line i)) ↔
        (∀ c ∈ curves, HasFinitePoints s.approximationTolerance c) ∧
          (curves ≠ [] → (motion s).Descends →
            ∀ step ∈ passSteps (motion s) s.passes, step.isFinite = true)) := by
  obtain ⟨root, curves, is, read, valid, placed, written, through, rfl⟩ :=
    stages_of_convert converted
  refine ⟨root, curves, is, read, placed, through, rfl, ?_⟩
  rw [hasFiniteWords_iff_areFinite, areFinite_program_iff valid written]

theorem convert_hasFiniteWords_iff_line :
    ∃ lines, convert "<svg><path d=\"M1,1L2,2\"/></svg>" burning = .ok lines ∧
      ∃ root curves is,
        Svg.readRoot "<svg><path d=\"M1,1L2,2\"/></svg>" = .ok root ∧
        placedCurves root burning = .ok curves ∧ convertRoot root burning = .ok is ∧
        lines = is.map (dialect burning).line ∧
        ((∀ i ∈ is, i.isOwn = true → HasFiniteWords ((dialect burning).line i)) ↔
          (∀ c ∈ curves, HasFinitePoints burning.approximationTolerance c) ∧
            (curves ≠ [] → (motion burning).Descends →
              ∀ step ∈ passSteps (motion burning) burning.passes, step.isFinite = true)) := by
  obtain ⟨lines, converted⟩ := convert_burning
  exact ⟨lines, converted, convert_hasFiniteWords_iff converted⟩

/-! ## A drawing that overflows -/

/-- A drawing of one line from a place out of range. -/
def distantRoot : Element := ⟨"svg", none, [], [⟨"path", none, [⟨none, "d", "M1e999,0L0,0"⟩], []⟩]⟩

theorem readRoot_distant :
    Svg.readRoot "<svg><path d=\"M1e999,0L0,0\"/></svg>" = .ok distantRoot := by
  have plain : Markup.unescaped "M1e999,0L0,0" = "M1e999,0L0,0" := by decide +kernel
  rw [Svg.readRoot_path "M1e999,0L0,0" (Outcome.toOption_eq_some_iff.mp (by decide +kernel)), plain]
  rfl

/-- Not all programs are written with finite numbers. -/
theorem not_convert_hasFiniteWords :
    ¬ ∀ (svg : String) (s : Settings Float) (lines : List String) (root : Element)
        (is : List (Instruction Float)),
      convert svg s = .ok lines → Svg.readRoot svg = .ok root → convertRoot root s = .ok is →
        ∀ i ∈ is, i.isOwn = true → HasFiniteWords ((dialect s).line i) := by
  intro claim
  obtain ⟨is, written⟩ : ∃ is, convertRoot distantRoot Settings.standard = .ok is :=
    Outcome.isOk_iff.mp (by decide +kernel)
  have converted := convert_eq_of_readRoot readRoot_distant written
  have finite := claim _ _ _ _ _ converted readRoot_distant written
  obtain ⟨root, curves, js, read, valid, placed, drawn, through, -⟩ := stages_of_convert converted
  rw [readRoot_distant] at read
  cases read
  rw [written] at through
  cases through
  rw [hasFiniteWords_iff_areFinite, areFinite_program_iff valid drawn] at finite
  have far : (placedCurves distantRoot Settings.standard).toOption.map
      (·.all fun c => c.start.x.isFinite) = some false := by
    decide +kernel
  rw [placed] at far
  have near : curves.all (fun c => c.start.x.isFinite) = true :=
    List.all_eq_true.mpr fun c hc => (finite.1 c hc).1.1
  exact Bool.false_ne_true ((Option.some.inj far).symm.trans near)

end LaserCut.Conversion
