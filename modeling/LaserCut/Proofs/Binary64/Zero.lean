import LaserCut.Proofs.Binary64.Finite

/-!
# The sign of zero

There are two zeros, which compare equal. Only one of them is left when zero is added to them.

* `plain`: a number, with a zero that has no sign;
* `zero_add_eq_plain`: the number that zero and a number add up to;
* `plain_beq_plain`, `plain_beq`: comparisons do not see the sign of a zero;
* `instPartialEquivBEq`: and see all else, so that to compare equal is symmetric and transitive.
-/

namespace LaserCut.Binary64

open Float.Model Float.Model.UnpackedFloat

/-- A number, with a zero that has no sign. -/
def plain (x : Float) : Float := if x == 0 then 0 else x

/-- The parts of a number, with a zero that has no sign. -/
def plainParts : UnpackedFloat → UnpackedFloat
  | .zero _ => .zero .positive
  | u => u

theorem compare_zero (s : Sign) (v : UnpackedFloat) :
    (UnpackedFloat.zero .positive).compare v = (UnpackedFloat.zero s).compare v := by
  cases v with
  | notANumber => rfl
  | zero => rfl
  | infinity t => cases t <;> rfl
  | finite t => cases t <;> rfl

theorem compare_zero_right (u : UnpackedFloat) (s : Sign) :
    u.compare (.zero .positive) = u.compare (.zero s) := by
  cases u with
  | notANumber => rfl
  | zero => rfl
  | infinity t => cases t <;> rfl
  | finite t => cases t <;> rfl

theorem plainParts_compare (u v : UnpackedFloat) : (plainParts u).compare v = u.compare v := by
  cases u with
  | zero s => exact compare_zero s v
  | _ => rfl

theorem compare_plainParts (u v : UnpackedFloat) : u.compare (plainParts v) = u.compare v := by
  cases v with
  | zero s => exact compare_zero_right u s
  | _ => rfl

section Plain

variable (x y : Float)

theorem plain_eq : plain x = .ofModel (pack (plainParts x.toModel.unpack)) := by
  have zero_iff : (x == 0) = (x.toModel.unpack.compare (.zero .positive) == some .eq) := rfl
  have packed := pack_unpack x
  rw [plain, zero_iff]
  revert packed
  generalize x.toModel.unpack = u
  intro packed
  cases u with
  | zero s => rfl
  | notANumber => exact packed.symm
  | infinity s => cases s <;> exact packed.symm
  | finite s m e hp => cases s <;> exact packed.symm

theorem zero_add_eq_plain : (Zero.zero : Float) + x = plain x := by
  rw [plain_eq]
  show Float.ofModel (pack (UnpackedFloat.add Format.binary64 (.zero .positive)
    x.toModel.unpack)) = _
  cases x.toModel.unpack with
  | zero s => cases s <;> rfl
  | _ => rfl

theorem unpack_plain : (plain x).toModel.unpack = plainParts x.toModel.unpack := by
  have unpacked : (pack x.toModel.unpack).unpack = x.toModel.unpack :=
    congrArg (·.toModel.unpack) (pack_unpack x)
  rw [plain_eq]
  revert unpacked
  cases x.toModel.unpack with
  | zero s =>
    intro
    show (pack (.zero .positive)).unpack = .zero .positive
    cbv
  | _ => exact id

theorem plain_plain : plain (plain x) = plain x := by
  by_cases zero : (x == 0) = true
  · rw [show plain x = 0 from if_pos zero]
    rfl
  · have same : plain x = x := if_neg zero
    rw [same, same]

theorem plain_beq_plain : (plain x == plain y) = (x == y) := by
  show ((plain x).toModel.unpack.compare (plain y).toModel.unpack == some .eq) =
    (x.toModel.unpack.compare y.toModel.unpack == some .eq)
  rw [unpack_plain, unpack_plain, plainParts_compare, compare_plainParts]

variable {x} in
theorem plain_beq (h : x.isNaN = false) : (plain x == x) = true := by
  show ((plain x).toModel.unpack.compare x.toModel.unpack == some .eq) = true
  rw [unpack_plain, plainParts_compare, compare_self h]
  rfl

end Plain

theorem not_le_zero {x : Float} (h : 0 < x) : ¬ x ≤ 0 := by
  have less : (UnpackedFloat.zero .positive).lt x.toModel.unpack = true := of_decide_eq_true h
  rw [le_iff]
  show ¬ x.toModel.unpack.le (.zero .positive) = true
  revert less
  cases x.toModel.unpack with
  | notANumber | zero => exact nofun
  | infinity s | finite s => cases s <;> exact nofun

/-! ## Equality -/

theorem magnitudes_of_compare {m m' : Nat} {e e' : Int}
    (same : (compare e e').then (compare m m') = .eq) : e = e' ∧ m = m' := by
  rwa [Ordering.then_eq_eq, Std.compare_eq_iff_eq, Std.compare_eq_iff_eq] at same

/-- Parts compare equal if they are those of one number, but for the signs of zeros. -/
theorem plainParts_eq_of_compare {u v : UnpackedFloat} (equal : u.compare v = some .eq) :
    u.isNaN = false ∧ plainParts u = plainParts v := by
  cases u with
  | notANumber => cases equal
  | zero s =>
    cases v with
    | notANumber => cases equal
    | zero t => exact ⟨rfl, rfl⟩
    | infinity t | finite t => cases t <;> cases equal
  | infinity s =>
    cases v with
    | infinity t => cases s <;> cases t <;> first | exact ⟨rfl, rfl⟩ | cases equal
    | notANumber | zero | finite => cases s <;> cases equal
  | finite s m e hm =>
    cases v with
    | notANumber | zero => cases s <;> cases equal
    | infinity t => cases s <;> cases t <;> cases equal
    | finite t m' e' hm' =>
      cases s <;> cases t
      case positive.positive =>
        obtain ⟨rfl, rfl⟩ := magnitudes_of_compare (Option.some.inj equal)
        exact ⟨rfl, rfl⟩
      case negative.negative =>
        have reversed := Option.some.inj equal
        obtain ⟨rfl, rfl⟩ := magnitudes_of_compare (Ordering.swap_eq_eq.mp reversed)
        exact ⟨rfl, rfl⟩
      all_goals cases equal

theorem compare_eq_iff {u v : UnpackedFloat} :
    u.compare v = some .eq ↔ u.isNaN = false ∧ plainParts u = plainParts v := by
  refine ⟨plainParts_eq_of_compare, ?_⟩
  rintro ⟨number, same⟩
  rw [← compare_plainParts, ← same, compare_plainParts, compare_self number]

theorem isNaN_plainParts (u : UnpackedFloat) : (plainParts u).isNaN = u.isNaN := by
  cases u <;> rfl

theorem beq_iff_plainParts {x y : Float} :
    (x == y) = true ↔ x.isNaN = false ∧
      plainParts x.toModel.unpack = plainParts y.toModel.unpack := by
  show (x.toModel.unpack.compare y.toModel.unpack == some .eq) = true ↔ _
  rw [beq_iff_eq, compare_eq_iff]
  rfl

/-- Numbers that compare equal are one number but for the signs of zeros, so that this is
symmetric and transitive. -/
instance instPartialEquivBEq : PartialEquivBEq Float where
  symm {x y} equal := by
    obtain ⟨number, same⟩ := beq_iff_plainParts.mp equal
    have number : y.isNaN = false := by
      show y.toModel.unpack.isNaN = false
      rw [← isNaN_plainParts, ← same, isNaN_plainParts]
      exact number
    exact beq_iff_plainParts.mpr ⟨number, same.symm⟩
  trans {x y z} first second := by
    obtain ⟨number, same⟩ := beq_iff_plainParts.mp first
    obtain ⟨-, same'⟩ := beq_iff_plainParts.mp second
    exact beq_iff_plainParts.mpr ⟨number, same.trans same'⟩

end LaserCut.Binary64
