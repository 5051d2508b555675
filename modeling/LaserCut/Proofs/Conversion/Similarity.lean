import LaserCut.Proofs.Conversion.Descent
import LaserCut.Proofs.Geometry.Similarity

/-!
# Programs for similar drawings

In exact arithmetic. Whether curves meet is decided by a distance, as flatness is, so the image of a
drawing under a similarity is traced like the drawing, with all its points mapped.

* `Instruction.imaged`: an instruction with its point of the plane mapped;
* `moves_transformed`: the moves for the images of curves are the images of the moves;
* `program_transformed`: a map that keeps distances changes the points of a program only;
* `flatten_of_similar`: what similarities do to flattened curves and to numbers of moves.
-/

namespace LaserCut

open Exact

namespace Gcode

/-! ## Instructions -/

section Imaged

variable {α : Type} (m : Point α → Point α)

/-- The words of a move with its point of the plane mapped, if they give one. -/
def AxisWords.imaged (w : AxisWords α) : AxisWords α :=
  match w.x, w.y with
  | some x, some y => ⟨some (m ⟨x, y⟩).x, some (m ⟨x, y⟩).y, w.z⟩
  | _, _ => w

def Instruction.imaged : Instruction α → Instruction α
  | .rapid words => .rapid (words.imaged m)
  | .cut feed words => .cut feed (words.imaged m)
  | i => i

def Instruction.isMove : Instruction α → Bool
  | .rapid _ | .cut _ _ => true
  | _ => false

theorem Instruction.isMove_imaged (i : Instruction α) : (i.imaged m).isMove = i.isMove := by
  cases i <;> rfl

theorem Dialect.isSilent_imaged (d : Dialect) (i : Instruction α) :
    d.isSilent (i.imaged m) = d.isSilent i := by
  cases i <;> rfl

theorem withFeed_imaged (feed : α) (is : List (Instruction α)) :
    withFeed feed (is.map (·.imaged m)) = (withFeed feed is).map (·.imaged m) := by
  induction is with
  | nil => rfl
  | cons i is ih =>
    cases i with
    | cut => rfl
    | _ => exact congrArg (List.cons _) ih

theorem descent_imaged [Scalar α] (motion : Motion α) (step : α) :
    (descent motion step).map (·.imaged m) = descent motion step := by
  rw [descent]
  split <;> rfl

end Imaged

/-! ## Moves -/

section Moves

variable {t : Transform ℝ} {k : ℝ}

theorem meets_transformed (h : t.IsSimilarity k) (tolerance : ℝ) (previous : Option (Curve ℝ))
    (curve : Curve ℝ) :
    meets (k * tolerance) (previous.map (·.transformed t)) (curve.transformed t) =
      meets tolerance previous curve := by
  cases previous with
  | none => rfl
  | some p =>
    show ((p.transformed t).finish).near _ (curve.transformed t).start = p.finish.near _ curve.start
    rw [(p.isImage_transformed t).finish, (curve.isImage_transformed t).start, Curve.near_apply h]

theorem moves_transformed (h : t.IsSimilarity k) (tolerance : ℝ) (curves : List (Curve ℝ)) :
    ∀ previous : Option (Curve ℝ),
      moves (k * tolerance) (previous.map (·.transformed t)) (curves.map (·.transformed t)) =
        (moves tolerance previous curves).map (·.imaged t.apply) := by
  induction curves with
  | nil => exact fun _ => rfl
  | cons curve rest ih =>
    intro previous
    have others := ih (some curve)
    have start := (curve.isImage_transformed t).start
    rw [Option.map_some] at others
    rw [List.map_cons, moves, moves, meets_transformed h, curve.flatten_transformed tolerance h,
      others, start, List.map_append, List.map_append, List.map_map, List.map_map]
    congr 2
    split <;> rfl

/-- A map that keeps distances keeps the tolerance, too. -/
theorem passesOf_transformed (h : t.IsSimilarity 1) (motion : Motion ℝ) (curves : List (Curve ℝ))
    (count : Nat) :
    passesOf motion (curves.map (·.transformed t)) count =
      (passesOf motion curves count).map (List.map (·.imaged t.apply)) := by
  have body : bodyOf motion (curves.map (·.transformed t)) =
      (bodyOf motion curves).map (·.imaged t.apply) := by
    have moved := moves_transformed h motion.tolerance curves none
    rw [one_mul, Option.map_none] at moved
    rw [bodyOf, moved, withFeed_imaged, bodyOf]
  rw [passesOf, passesOf, List.isEmpty_map]
  split
  · rw [List.map_replicate, List.map_nil]
  · rw [List.map_cons, List.map_map, body]
    congr 1
    refine List.map_congr_left fun step _ => ?_
    rw [Function.comp_apply, List.map_append, descent_imaged]

end Moves
end Gcode

namespace Conversion

open Gcode

/-- Between the same header and footer, the passes for the image of a drawing are the images of the
passes for it. -/
theorem program_transformed {t : Transform ℝ} (h : t.IsSimilarity 1) {s : Settings ℝ}
    (passes : 1 ≤ s.passes) (curves : List (Curve ℝ)) :
    ∃ header middle footer, program s curves = .ok (header ++ middle ++ footer) ∧
      program s (curves.map (·.transformed t)) =
        .ok (header ++ middle.map (·.imaged t.apply) ++ footer) := by
  have speed : (s.cuttingSpeed == s.cuttingSpeed) = true := beq_iff.mpr rfl
  obtain ⟨is, written⟩ := exists_program zero_le_one le_rfl s curves
  obtain ⟨js, writtenImage⟩ :=
    exists_program zero_le_one le_rfl s (curves.map (·.transformed t))
  obtain ⟨header, footer, framed, rfl⟩ := program_eq_filter zero_le_one le_rfl speed passes written
  obtain ⟨header', footer', framed', rfl⟩ :=
    program_eq_filter zero_le_one le_rfl speed passes writtenImage
  rw [framed] at framed'
  cases framed'
  have kept : (!(dialect s).isSilent ·) ∘ Instruction.imaged t.apply =
      (!(dialect s).isSilent · : Instruction ℝ → Bool) :=
    funext fun i => congrArg (!·) ((dialect s).isSilent_imaged t.apply i)
  rw [passesOf_transformed h, ← List.map_flatten] at writtenImage
  rw [List.filter_append, List.filter_append] at written writtenImage
  rw [List.filter_map, kept] at writtenImage
  exact ⟨_, _, _, written, writtenImage⟩

/-- Translations, rotations, flips, uniform scales and their products are similarities. Under any
similarity, and with the tolerance multiplied by its factor, the image of a curve is flattened to
the images of the points of the curve. So the program for a drawing that is moved, turned or
mirrored has as many moves, and as many lines, as the program for the drawing. -/
theorem flatten_of_similar :
    (∀ (t : Transform ℝ) (k : ℝ), t.IsUniform k → t.IsSimilarity k) ∧
    (∀ (t : Transform ℝ) (k : ℝ), t.IsSimilarity k → ∀ (curve : Curve ℝ) (tolerance : ℝ),
      (curve.transformed t).flatten (k * tolerance) = (curve.flatten tolerance).map t.apply) ∧
    ∀ t : Transform ℝ, t.IsSimilarity 1 → ∀ s : Settings ℝ, 1 ≤ s.passes →
      ∀ curves : List (Curve ℝ), ∃ is js, program s curves = .ok is ∧
        program s (curves.map (·.transformed t)) = .ok js ∧
        js.countP (·.isMove) = is.countP (·.isMove) ∧ js.length = is.length := by
  refine ⟨fun t k uniform => uniform.isSimilarity,
    fun t k similar curve tolerance => curve.flatten_transformed tolerance similar, ?_⟩
  intro t similar s passes curves
  obtain ⟨header, middle, footer, written, writtenImage⟩ :=
    program_transformed similar passes curves
  have moves : (middle.map (·.imaged t.apply)).countP (·.isMove) = middle.countP (·.isMove) := by
    rw [List.countP_map]
    exact congrArg (List.countP · middle) (funext fun i => i.isMove_imaged t.apply)
  refine ⟨_, _, written, writtenImage, ?_, ?_⟩
  · rw [List.countP_append, List.countP_append, List.countP_append, List.countP_append, moves]
  · rw [List.length_append, List.length_append, List.length_append, List.length_append,
      List.length_map]

/-- Half an ellipse turned and enlarged, and five passes over it mirrored. -/
theorem flatten_of_similar_halfEllipse :
    let half : Curve ℝ := .arc
      ⟨⟨0, 0⟩, ⟨2, 0⟩, ⟨1, 0⟩, ⟨1, 1⟩, 0, Real.pi, Real.pi, Transform.scaling 3 1⟩
    let turn : Transform ℝ := (Transform.rotation 30).compose (Transform.scaling 2 2)
    let mirror : Transform ℝ := Transform.verticalFlip 100
    turn.IsSimilarity (1 * |2|) ∧
      (half.transformed turn).flatten (1 * |2| * (1 / 10)) =
        (half.flatten (1 / 10)).map turn.apply ∧
      mirror.IsSimilarity 1 ∧ 1 ≤ fivePasses.passes ∧
      ∃ is js, program fivePasses [half] = .ok is ∧
        program fivePasses [half.transformed mirror] = .ok js ∧
        js.countP (·.isMove) = is.countP (·.isMove) ∧ js.length = is.length := by
  intro half turn mirror
  have turned : turn.IsSimilarity (1 * |2|) :=
    flatten_of_similar.1 _ _ (.compose (.rotation 30) (.scaling two_ne_zero))
  have mirrored : mirror.IsSimilarity 1 := flatten_of_similar.1 _ _ (.verticalFlip 100)
  have passes : 1 ≤ fivePasses.passes := by decide
  exact ⟨turned, flatten_of_similar.2.1 _ _ turned half (1 / 10), mirrored, passes,
    flatten_of_similar.2.2 _ mirrored fivePasses passes [half]⟩

end Conversion
end LaserCut
