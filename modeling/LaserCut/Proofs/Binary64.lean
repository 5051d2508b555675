import LaserCut.Binary64

/-!
# Binary64 numbers that equal themselves

Every number but the one that is none equals itself, so a feed that is written once is not written
again.
-/

namespace LaserCut.Binary64

open Float.Model

theorem compare_self {u : UnpackedFloat} (h : u.isNaN = false) : u.compare u = some .eq := by
  cases u with
  | notANumber => cases h
  | infinity s => cases s <;> rfl
  | zero s => rfl
  | finite s m e hp =>
    have eq : (compare e e).then (compare m m) = .eq := by
      rw [Std.ReflOrd.compare_self, Std.ReflOrd.compare_self]
      rfl
    cases s with
    | positive =>
      show some ((compare e e).then (compare m m)) = some .eq
      rw [eq]
    | negative =>
      show some ((compare e e).then (compare m m)).swap = some .eq
      rw [eq]
      rfl

theorem beq_self {x : Float} (h : x.isNaN = false) : (x == x) = true := by
  show (x.toModel.unpack.compare x.toModel.unpack == some .eq) = true
  rw [compare_self h]
  rfl

/-- In the units of scalars, which numerals are only after unfolding. -/
theorem zero_le_one : (Zero.zero : Float) ≤ One.one := by decide +kernel

theorem one_le_one : (One.one : Float) ≤ One.one := by decide +kernel

theorem isNaN_of_isFinite {x : Float} (h : x.isFinite = true) : x.isNaN = false := by
  revert h
  show x.toModel.unpack.isFinite = true → x.toModel.unpack.isNaN = false
  generalize x.toModel.unpack = u
  intro h
  cases u with
  | notANumber => cases h
  | infinity s => rfl
  | zero s => rfl
  | finite s m e hp => rfl

end LaserCut.Binary64
