import LaserCut.Proofs.Decimal.Numerals
import LaserCut.Proofs.Gcode.Passes
import LaserCut.Proofs.Reals

/-!
# The descent between passes

The steps down between passes, in exact arithmetic. A depth is rounded as a whole to the last place
that is written, and a step is the difference of two such depths, so rounding errors do not add up
from pass to pass.

* `IsWrittenExactly`: the text of a number reads back as the number;
* `IsDescent`, `passSteps_isDescent`: what the steps add up to, and how far each is from the depth
  of a pass;
* `relativeHeights`: the height words of instructions that count from the height before;
* `relativeHeights_passesOf`: in the passes these are the steps, downwards.
-/

namespace LaserCut.Gcode

open Exact

/-! ## Texts -/

/-- Nothing is lost in writing a number with so many places, whatever fraction it is printed
from. -/
def IsWrittenExactly (places : Nat) (x : ℝ) : Prop :=
  ∀ (negative : Bool) (num den : Nat), 0 < den →
    x = (if negative then -1 else 1) * (num / den) →
      ∃ l, Literal.ofChars? (Decimal.fixedText places negative num den).toList = some l ∧
        Exact.ofLiteral l = x

/-- A multiple of the last place is written exactly. -/
theorem isWrittenExactly_of_multiple {places : Nat} {x : ℝ} {k : ℤ} (h : x = k / 10 ^ places) :
    IsWrittenExactly places x := by
  intro negative num den positive value
  have den_ne : (den : ℝ) ≠ 0 := Nat.cast_ne_zero.mpr positive.ne'
  have magnitude : ((k.natAbs : ℕ) : ℝ) / 10 ^ places = num / den := by
    have same := congrArg abs (h.symm.trans value)
    rw [abs_div, abs_mul, abs_div, Nat.abs_cast, Nat.abs_cast, abs_of_pos (a := (10 : ℝ) ^ places)
      (by positivity), ← Int.cast_abs, Int.abs_eq_natAbs, Int.cast_natCast] at same
    rw [same]
    cases negative <;> simp
  have scaled : num * Nat.pow 10 places = k.natAbs * den := by
    rw [div_eq_div_iff (by positivity) den_ne] at magnitude
    exact_mod_cast magnitude.symm
  obtain ⟨m, text, literal⟩ := Decimal.exists_numeral_placed negative places k.natAbs
  refine ⟨m.value, ?_, ?_⟩
  · rw [Decimal.fixedText, scaled, Decimal.roundHalfEven_mul positive, ← text]
    exact Literal.ofChars?_text m
  · rw [literal, value, ← magnitude]
    show (if negative then -1 else 1) * (k.natAbs : ℝ) * 10 ^ (-(places : ℤ)) = _
    rw [zpow_neg, zpow_natCast]
    ring

/-! ## Steps -/

/-- Steps between so many passes, each of which is to go down by a depth. They are multiples of the
last of so many places, and after each pass they add up to the depth of the passes before, rounded
to that place once. -/
structure IsDescent (depth : ℝ) (places passes : Nat) (steps : List ℝ) : Prop where
  length : steps.length = passes - 1
  multiple : ∀ step ∈ steps, ∃ k : ℤ, step = k / 10 ^ places
  written : ∀ step ∈ steps, IsWrittenExactly places step
  sum_take : ∀ m < passes,
    (steps.take m).sum = Scalar.round (m * depth * 10 ^ places) / 10 ^ places
  drift : ∀ m < passes, |(steps.take m).sum - m * depth| ≤ 1 / 2 / 10 ^ places
  nonneg : 0 < depth → ∀ step ∈ steps, 0 ≤ step
  near : 0 < depth → ∀ step ∈ steps, |step - depth| ≤ 1 / 10 ^ places

section Steps

/-- The depth of so many passes, rounded to the last of so many places. -/
noncomputable def depthAfter (depth : ℝ) (places pass : Nat) : ℝ :=
  Scalar.round (pass * depth * Scalar.tenPow places) / Scalar.tenPow places

theorem depthAfter_eq (depth : ℝ) (places pass : Nat) :
    depthAfter depth places pass = Scalar.round (pass * depth * 10 ^ places) / 10 ^ places := rfl

theorem depthAfter_zero (depth : ℝ) (places : Nat) : depthAfter depth places 0 = 0 := by
  rw [depthAfter_eq, Nat.cast_zero, zero_mul, zero_mul, round_zero, zero_div]

theorem passSteps_eq (motion : Motion ℝ) (passes : Nat) :
    passSteps motion passes = (List.range (passes - 1)).map fun i =>
      depthAfter motion.passDepth (decimalPlaces motion.tolerance) (i + 1) -
        depthAfter motion.passDepth (decimalPlaces motion.tolerance) i := by
  refine List.map_congr_left fun i _ => ?_
  have tick (pass : Nat) : ticks motion.passDepth (Scalar.tenPow (decimalPlaces motion.tolerance))
      pass = Scalar.round (pass * motion.passDepth * 10 ^ decimalPlaces motion.tolerance) := by
    show Scalar.round (motion.passDepth * Scalar.ofNat pass * 10 ^ _) = _
    rw [ofNat_eq, mul_comm motion.passDepth]
  rw [tick, tick, depthAfter_eq, depthAfter_eq, ← sub_div]
  rfl

/-- Differences add up to the last value if the first is zero. -/
theorem sum_take_differences {f : Nat → ℝ} (zero : f 0 = 0) {m n : Nat} (h : m ≤ n) :
    (((List.range n).map fun i => f (i + 1) - f i).take m).sum = f m := by
  rw [← List.map_take, List.take_range, Nat.min_eq_left h]
  induction m with
  | zero => exact zero.symm
  | succ m ih =>
    rw [List.range_succ, List.map_append, List.sum_append, ih (by omega), List.map_singleton,
      List.sum_singleton]
    ring

variable (depth : ℝ) (places pass : Nat)

theorem abs_depthAfter_sub :
    |depthAfter depth places pass - pass * depth| ≤ 1 / 2 / 10 ^ places := by
  obtain ⟨k, rounded, near⟩ := exists_round_eq (pass * depth * 10 ^ places)
  have quotient : depthAfter depth places pass - pass * depth =
      (k - pass * depth * 10 ^ places) / 10 ^ places := by
    rw [depthAfter_eq, rounded, sub_div, mul_div_cancel_right₀ _ (by positivity)]
  rw [quotient, abs_div, abs_of_pos (a := (10 : ℝ) ^ places) (by positivity)]
  exact div_le_div_of_nonneg_right near (by positivity)

theorem exists_difference_eq :
    ∃ k : ℤ, depthAfter depth places (pass + 1) - depthAfter depth places pass =
      k / 10 ^ places := by
  obtain ⟨a, after, -⟩ := exists_round_eq ((pass + 1 : ℕ) * depth * 10 ^ places)
  obtain ⟨b, before, -⟩ := exists_round_eq (pass * depth * 10 ^ places)
  refine ⟨a - b, ?_⟩
  rw [depthAfter_eq, depthAfter_eq, after, before, ← sub_div, Int.cast_sub]

theorem depthAfter_le_succ (positive : 0 < depth) :
    depthAfter depth places pass ≤ depthAfter depth places (pass + 1) := by
  rw [depthAfter_eq, depthAfter_eq]
  refine div_le_div_of_nonneg_right (round_le_round (by positivity) ?_) (by positivity)
  push_cast
  gcongr
  exact le_add_of_nonneg_right zero_le_one

/-- Two roundings are off by half a unit each. -/
theorem abs_difference_sub :
    |depthAfter depth places (pass + 1) - depthAfter depth places pass - depth| ≤
      1 / 10 ^ places := by
  have after := abs_depthAfter_sub depth places (pass + 1)
  have before := abs_depthAfter_sub depth places pass
  push_cast at after
  rw [abs_le] at after before ⊢
  have halves : (1 : ℝ) / 10 ^ places = 1 / 2 / 10 ^ places + 1 / 2 / 10 ^ places := by ring
  constructor <;> linarith [after.1, after.2, before.1, before.2]

end Steps

/-- The steps between passes are a descent, whatever depth, tolerance and number of passes are. -/
theorem passSteps_isDescent (motion : Motion ℝ) {passes : Nat} (h : 1 ≤ passes) :
    IsDescent motion.passDepth (decimalPlaces motion.tolerance) passes
      (passSteps motion passes) := by
  generalize hp : decimalPlaces motion.tolerance = places
  have steps := passSteps_eq motion passes
  rw [hp] at steps
  have each {p : ℝ → Prop} (holds : ∀ i, p (depthAfter motion.passDepth places (i + 1) -
      depthAfter motion.passDepth places i)) : ∀ step ∈ passSteps motion passes, p step := by
    rw [steps]
    intro step mem
    obtain ⟨i, -, rfl⟩ := List.mem_map.mp mem
    exact holds i
  have total : ∀ m < passes, ((passSteps motion passes).take m).sum =
      depthAfter motion.passDepth places m := fun m hm => by
    rw [steps, sum_take_differences (depthAfter_zero _ _) (by omega)]
  exact {
    length := by rw [steps, List.length_map, List.length_range]
    multiple := each fun i => exists_difference_eq _ _ i
    written := each fun i => by
      obtain ⟨k, eq⟩ := exists_difference_eq motion.passDepth places i
      exact isWrittenExactly_of_multiple eq
    sum_take := total
    drift := fun m hm => by
      rw [total m hm]
      exact abs_depthAfter_sub _ _ m
    nonneg := fun positive => each fun i => sub_nonneg.mpr (depthAfter_le_succ _ _ i positive)
    near := fun _ => each fun i => abs_difference_sub _ _ i }

/-! ## Height words -/

section Heights

variable {α : Type}

/-- The height words of moves by relative distances, which are in effect at the beginning or not. -/
def relativeHeights (relative : Bool) : List (Instruction α) → List α
  | [] => []
  | i :: is =>
    match i with
    | .absolute => relativeHeights false is
    | .relative => relativeHeights true is
    | .rapid words | .cut _ words =>
      (if relative then words.z.toList else []) ++ relativeHeights relative is
    | _ => relativeHeights relative is

/-- Lines that are left out have no height words. -/
theorem relativeHeights_filter (d : Dialect) (is : List (Instruction α)) (relative : Bool) :
    relativeHeights relative (is.filter (!d.isSilent ·)) = relativeHeights relative is := by
  induction is generalizing relative with
  | nil => rfl
  | cons i is ih =>
    rw [List.filter_cons]
    split
    · cases i <;> simp only [relativeHeights, ih]
    · rename_i silent
      rw [ih]
      cases i with
      | toolOff | toolOn | verbatim => rfl
      | _ => exact absurd rfl silent

/-- The user's own lines are not looked into. -/
theorem relativeHeights_verbatim_append (lines : List String) (is : List (Instruction α))
    (relative : Bool) :
    relativeHeights relative (lines.map .verbatim ++ is) = relativeHeights relative is := by
  induction lines with
  | nil => rfl
  | cons line lines ih => exact ih

/-- Absolute distances stay so. -/
theorem relativeHeights_append {as : List (Instruction α)}
    (h : ∀ i ∈ as, i.keepsAbsolute = true) (bs : List (Instruction α)) :
    relativeHeights false (as ++ bs) = relativeHeights false bs := by
  induction as with
  | nil => rfl
  | cons a as ih =>
    obtain ⟨ha, has⟩ := List.forall_mem_cons.mp h
    rw [List.cons_append]
    cases a with
    | relative | verbatim => cases ha
    | _ => exact ih has

theorem keepsAbsolute_of_isPlanar {i : Instruction α} (h : i.isPlanar = true) :
    i.keepsAbsolute = true := by
  cases i with
  | relative | verbatim => cases h
  | _ => rfl

variable [Scalar α]

theorem relativeHeights_bodyOf_append (motion : Motion α) (curves : List (Curve α))
    (is : List (Instruction α)) :
    relativeHeights false (bodyOf motion curves ++ is) = relativeHeights false is :=
  relativeHeights_append
    (fun i hi => keepsAbsolute_of_isPlanar (isPlanar_bodyOf motion curves i hi)) is

theorem relativeHeights_descent_append {motion : Motion α} (down : 0 < motion.passDepth) (step : α)
    (is : List (Instruction α)) :
    relativeHeights false (descent motion step ++ is) = -step :: relativeHeights false is := by
  rw [descent, if_pos down]
  rfl

/-- The height words between passes are the steps, downwards. -/
theorem relativeHeights_passesOf {motion : Motion α} (down : 0 < motion.passDepth)
    {curves : List (Curve α)} (drawn : curves ≠ []) (passes : Nat) (is : List (Instruction α)) :
    relativeHeights false ((passesOf motion curves passes).flatten ++ is) =
      (passSteps motion passes).map (-·) ++ relativeHeights false is := by
  rw [passesOf, if_neg (mt List.isEmpty_iff.mp drawn), List.flatten_cons, List.append_assoc,
    relativeHeights_bodyOf_append]
  induction passSteps motion passes with
  | nil => rfl
  | cons step steps ih =>
    rw [List.map_cons, List.flatten_cons, List.append_assoc, List.append_assoc,
      relativeHeights_descent_append down, relativeHeights_bodyOf_append, ih]
    rfl

end Heights
end LaserCut.Gcode
