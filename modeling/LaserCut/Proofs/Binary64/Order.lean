import Mathlib.Data.Prod.Lex
import LaserCut.Proofs.Binary64.Finite

/-!
# The order of binary64 numbers

Numbers are compared by their signs, exponents and mantissas. They stand in one line, which a
missing number is not part of.

* `rank`: where a number stands;
* `le_iff_rank`: a number is at most another if both stand in the line, and in that order;
* `Binary64.le_trans`: so that comparisons add up.
-/

namespace LaserCut.Binary64

open Float.Model Float.Model.UnpackedFloat

/-- Where a number stands among all numbers: its class, then its exponent and its mantissa, which
count backwards below zero. -/
def rank : UnpackedFloat → Option (ℤ ×ₗ ℤ ×ₗ ℤ)
  | .notANumber => none
  | .infinity .negative => some (toLex (-2, toLex (0, 0)))
  | .finite .negative m e _ => some (toLex (-1, toLex (-e, -m)))
  | .zero _ => some (toLex (0, toLex (0, 0)))
  | .finite .positive m e _ => some (toLex (1, toLex (e, m)))
  | .infinity .positive => some (toLex (2, toLex (0, 0)))

theorem isLE_magnitudes_iff {m m' : Nat} {e e' : Int} :
    ((compare e e').then (compare m m')).isLE = true ↔ e < e' ∨ e = e' ∧ m ≤ m' := by
  rcases lt_trichotomy e e' with less | rfl | greater
  · rw [Int.compare_eq_lt.mpr less]
    exact iff_of_true rfl (.inl less)
  · rw [Std.ReflOrd.compare_self, Ordering.eq_then, Nat.isLE_compare]
    simp
  · rw [Int.compare_eq_gt.mpr greater]
    exact iff_of_false Bool.false_ne_true (by omega)

theorem swap_magnitudes (m m' : Nat) (e e' : Int) :
    ((compare e e').then (compare m m')).swap = (compare e' e).then (compare m' m) := by
  rw [Ordering.swap_then, ← Std.OrientedCmp.eq_swap, ← Std.OrientedCmp.eq_swap]

/-- A number is at most another if both stand in the line of numbers, in that order. -/
theorem le_iff_rank {u v : UnpackedFloat} :
    u.le v = true ↔ ∃ a b, rank u = some a ∧ rank v = some b ∧ a ≤ b := by
  have signs : compare Sign.negative .positive = .lt ∧ compare Sign.positive .negative = .gt ∧
      ∀ s : Sign, compare s s = .eq := ⟨rfl, rfl, fun s => by cases s <;> rfl⟩
  cases u with
  | notANumber => exact iff_of_false Bool.false_ne_true (by rintro ⟨_, _, ⟨⟩, -⟩)
  | zero s =>
    cases v with
    | notANumber | zero => simp [UnpackedFloat.le, UnpackedFloat.compare, rank]
    | infinity t | finite t =>
      cases t <;> simp [UnpackedFloat.le, UnpackedFloat.compare, rank, Prod.Lex.toLex_le_toLex]
  | infinity s =>
    cases v with
    | notANumber => cases s <;> simp [UnpackedFloat.le, UnpackedFloat.compare, rank]
    | zero =>
      cases s <;> simp [UnpackedFloat.le, UnpackedFloat.compare, rank, Prod.Lex.toLex_le_toLex]
    | infinity t | finite t =>
      cases s <;> cases t <;>
        simp [UnpackedFloat.le, UnpackedFloat.compare, rank, signs, Prod.Lex.toLex_le_toLex]
  | finite s m e hm =>
    cases v with
    | notANumber => cases s <;> simp [UnpackedFloat.le, UnpackedFloat.compare, rank]
    | zero =>
      cases s <;> simp [UnpackedFloat.le, UnpackedFloat.compare, rank, Prod.Lex.toLex_le_toLex]
    | infinity t =>
      cases s <;> cases t <;>
        simp [UnpackedFloat.le, UnpackedFloat.compare, rank, Prod.Lex.toLex_le_toLex]
    | finite t m' e' hm' =>
      cases s <;> cases t <;>
        simp only [UnpackedFloat.le, UnpackedFloat.compare, rank, swap_magnitudes, Option.any_some,
          isLE_magnitudes_iff, Prod.Lex.toLex_le_toLex, Option.some.injEq, exists_and_left,
          exists_eq_left', true_and, lt_irrefl, false_or, Int.neg_lt_neg_iff]
      · omega
      · exact iff_of_true rfl (.inl (by decide))
      · exact iff_of_false Bool.false_ne_true (by omega)
      · omega

protected theorem le_trans {x y z : Float} (first : x ≤ y) (second : y ≤ z) : x ≤ z := by
  rw [le_iff, le_iff_rank] at first second ⊢
  obtain ⟨a, b, hx, hy, hab⟩ := first
  obtain ⟨b', c, hy', hz, hbc⟩ := second
  obtain rfl := Option.some.inj (hy.symm.trans hy')
  exact ⟨a, c, hx, hz, hab.trans hbc⟩

end LaserCut.Binary64
