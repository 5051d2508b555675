import Mathlib
import LaserCut.Geometry.Point
import LaserCut.Proofs.Binary64
import LaserCut.Proofs.Binary64.Scaled

/-!
# Binary64 numbers that are not finite

An infinity or a missing number does not disappear on the way: arithmetic hands it on, and no
comparison with a finite number hides it. That the parts of a number make up the number again
(`UnpackedFloat.pack_unpack_of_valid`) is a fact of Batteries that no single module of Mathlib
brings in, so all of Mathlib is imported here.

* `isNaN_add_left` and the like: a missing operand gives a missing result;
* `isFinite_neg`: negation keeps numbers finite, and the others not;
* `eq_of_pos_of_beq`: numbers that compare equal are the same, zeros apart;
* `not_hypotenuse_le`: a vector with a coordinate that is not finite is longer than any bound;
* `Point.isFinite_of_near`: what is near a finite point is finite.
-/

namespace LaserCut.Binary64

open Float.Model Float.Model.UnpackedFloat

/-! ## Numbers that are missing -/

theorem isNaN_iff {x : Float} : x.isNaN = true ↔ x.toModel.unpack = .notANumber := by
  show x.toModel.unpack.isNaN = true ↔ _
  cases x.toModel.unpack <;> simp [UnpackedFloat.isNaN]

section Missing

variable {x y : Float}

theorem isNaN_of_notANumber {u : UnpackedFloat} (h : u = .notANumber) :
    (Float.ofModel (pack u)).isNaN = true := by
  rw [h]
  rfl

theorem isNaN_add_left (h : x.isNaN = true) : (x + y).isNaN = true :=
  isNaN_of_notANumber (by rw [isNaN_iff.mp h]; rfl)

theorem isNaN_add_right (h : y.isNaN = true) : (x + y).isNaN = true :=
  isNaN_of_notANumber (by rw [isNaN_iff.mp h]; cases x.toModel.unpack <;> rfl)

theorem isNaN_sub_left (h : x.isNaN = true) : (x - y).isNaN = true :=
  isNaN_of_notANumber (by rw [isNaN_iff.mp h]; rfl)

theorem isNaN_sub_right (h : y.isNaN = true) : (x - y).isNaN = true :=
  isNaN_of_notANumber (by rw [isNaN_iff.mp h]; cases x.toModel.unpack <;> rfl)

theorem isNaN_mul_left (h : x.isNaN = true) : (x * y).isNaN = true :=
  isNaN_of_notANumber (by rw [isNaN_iff.mp h]; rfl)

theorem isNaN_div_left (h : x.isNaN = true) : (x / y).isNaN = true :=
  isNaN_of_notANumber (by rw [isNaN_iff.mp h]; rfl)

theorem isNaN_sqrt (h : x.isNaN = true) : x.sqrt.isNaN = true :=
  isNaN_of_notANumber (by rw [isNaN_iff.mp h]; rfl)

theorem isNaN_abs (h : x.isNaN = true) : x.abs.isNaN = true :=
  isNaN_of_notANumber (by rw [isNaN_iff.mp h]; rfl)

theorem le_iff : x ≤ y ↔ x.toModel.unpack.le y.toModel.unpack = true :=
  decide_eq_true_iff

theorem not_le_of_isNaN (h : x.isNaN = true) : ¬ x ≤ y := by
  rw [le_iff, isNaN_iff.mp h]
  exact Bool.false_ne_true

end Missing

/-! ## Numbers that are not finite -/

theorem not_isFinite_iff {x : Float} :
    x.isFinite = false ↔ x.isNaN = true ∨ ∃ s, x.toModel.unpack = .infinity s := by
  rw [isNaN_iff]
  show x.toModel.unpack.isFinite = false ↔ _
  cases x.toModel.unpack <;> simp [UnpackedFloat.isFinite]

theorem not_isFinite_infinity (s : Sign) : (pack (.infinity s)).unpack.isFinite = false := by
  cases s <;> decide

theorem not_isFinite_sub {x y : Float} (hx : x.isFinite = true) (hy : y.isFinite = false) :
    (x - y).isFinite = false := by
  rcases not_isFinite_iff.mp hy with missing | ⟨s, infinite⟩
  · exact not_isFinite_iff.mpr (.inl (isNaN_sub_right missing))
  · show (pack (UnpackedFloat.sub Format.binary64 x.toModel.unpack
      y.toModel.unpack)).unpack.isFinite = false
    have finite : x.toModel.unpack.isFinite = true := hx
    rw [infinite]
    revert finite
    cases x.toModel.unpack with
    | notANumber => exact nofun
    | infinity => exact nofun
    | zero | finite => exact fun _ => not_isFinite_infinity (-s)

theorem isFinite_unpack {spec : Format} (b : BitVec spec.numBits) :
    (UnpackedFloat.unpack spec b).isFinite =
      decide (unpackExponent b ≠ -BitVec.ofNat spec.exponentBits 1) := by
  unfold UnpackedFloat.unpack
  dsimp only
  split
  · rename_i full
    rw [decide_eq_false (not_not_intro full)]
    split <;> rfl
  · rename_i notFull
    rw [decide_eq_true notFull]
    split
    · split <;> rfl
    · rfl

/-- Whether a packed number is finite does not depend on its sign. -/
theorem isFinite_unpack_pack (s t : Sign) {m : Nat} {e : Int} (h : 0 < m) :
    (pack (.finite s m e h)).unpack.isFinite = (pack (.finite t m e h)).unpack.isFinite := by
  show (UnpackedFloat.unpack Format.binary64 (UnpackedFloat.pack Format.binary64 _)).isFinite =
    (UnpackedFloat.unpack Format.binary64 (UnpackedFloat.pack Format.binary64 _)).isFinite
  unfold UnpackedFloat.pack
  dsimp only
  split
  · exact (not_isFinite_infinity s).trans (not_isFinite_infinity t).symm
  · split <;> simp only [isFinite_unpack, unpackExponent_packComponents]

theorem pack_unpack (x : Float) : Float.ofModel (pack x.toModel.unpack) = x := by
  obtain ⟨⟨bits, valid⟩⟩ := x
  have bitVec := UnpackedFloat.pack_unpack_of_valid valid
  show Float.ofModel ⟨⟨UnpackedFloat.pack Format.binary64
    (UnpackedFloat.unpack Format.binary64 bits.toBitVec)⟩, _⟩ = _
  simp only [bitVec]

theorem isFinite_neg (x : Float) : (-x).isFinite = x.isFinite := by
  show (pack x.toModel.unpack.neg).unpack.isFinite = x.toModel.unpack.isFinite
  have packed := congrArg Float.isFinite (pack_unpack x)
  have same : (pack x.toModel.unpack).unpack.isFinite = x.toModel.unpack.isFinite := packed
  revert same
  cases x.toModel.unpack with
  | notANumber => exact fun _ => rfl
  | infinity s => exact fun _ => not_isFinite_infinity (-s)
  | zero s => intro _; cases s <;> decide
  | finite s m e h => exact fun same => (isFinite_unpack_pack (-s) s h).trans same

/-! ## Numbers that compare equal -/

/-- Unpacked numbers that compare equal are the same if they are positive. -/
theorem eq_of_compare {u v : UnpackedFloat}
    (positive : (UnpackedFloat.zero .positive).compare v = some .lt)
    (equal : u.compare v = some .eq) : u = v := by
  cases v with
  | notANumber | zero => cases positive
  | infinity s =>
    cases s with
    | negative => cases positive
    | positive =>
      cases u with
      | notANumber | zero => cases equal
      | infinity t => cases t <;> first | rfl | cases equal
      | finite t => cases t <;> cases equal
  | finite s m e hm =>
    cases s with
    | negative => cases positive
    | positive =>
      cases u with
      | notANumber | zero => cases equal
      | infinity t => cases t <;> cases equal
      | finite t m' e' hm' =>
        cases t with
        | negative => cases equal
        | positive =>
          have same : (compare e' e).then (compare m' m) = .eq := Option.some.inj equal
          rw [Ordering.then_eq_eq, Std.compare_eq_iff_eq, Std.compare_eq_iff_eq] at same
          obtain ⟨rfl, rfl⟩ := same
          rfl

/-- Only zeros compare equal to another number, and a positive number is not zero. -/
theorem eq_of_pos_of_beq {x y : Float} (hy : 0 < y) (h : (x == y) = true) : x = y := by
  have positive : (UnpackedFloat.zero .positive).compare y.toModel.unpack = some .lt :=
    beq_iff_eq.mp (of_decide_eq_true hy)
  have equal : x.toModel.unpack.compare y.toModel.unpack = some .eq := beq_iff_eq.mp h
  rw [← pack_unpack x, eq_of_compare positive equal, pack_unpack]

/-! ## Lengths -/

theorem infinity_not_le {t : Float} (h : t.isFinite = true) : ¬ infinity ≤ t := by
  have positive : infinity.toModel.unpack = .infinity .positive := rfl
  have finite : t.toModel.unpack.isFinite = true := h
  rw [le_iff, positive]
  revert finite
  cases t.toModel.unpack with
  | notANumber => exact nofun
  | infinity => exact nofun
  | zero | finite => exact fun _ => nofun

theorem abs_beq_infinity {x : Float} {s : Sign} (h : x.toModel.unpack = .infinity s) :
    (x.abs == infinity) = true := by
  show ((pack x.toModel.unpack.abs).unpack.compare infinity.toModel.unpack == some .eq) = true
  rw [h]
  show ((pack (.infinity .positive)).unpack.compare infinity.toModel.unpack == some .eq) = true
  decide

theorem isNaN_correctedRoot {a b : Float} (h : a.isNaN = true ∨ b.isNaN = true) :
    (correctedRoot a b).isNaN = true := by
  refine isNaN_sub_left (isNaN_sqrt ?_)
  rcases h with h | h
  · exact isNaN_add_left (isNaN_mul_left h)
  · exact isNaN_add_right (isNaN_mul_left h)

/-- The scaled root of a sum of squares, one of which is missing, is missing at every scale. -/
theorem isNaN_hypotenuse {x y : Float} (finite : ¬ (x.abs == infinity || y.abs == infinity) = true)
    (h : x.abs.isNaN = true ∨ y.abs.isNaN = true) : (hypotenuse x y).isNaN = true := by
  have sorted : (if x.abs < y.abs then y.abs else x.abs).isNaN = true ∨
      (if x.abs < y.abs then x.abs else y.abs).isNaN = true := by
    split
    · exact h.symm
    · exact h
  unfold hypotenuse
  dsimp only
  rw [if_neg finite]
  generalize (if x.abs < y.abs then y.abs else x.abs) = a at sorted ⊢
  generalize (if x.abs < y.abs then x.abs else y.abs) = b at sorted ⊢
  split
  · exact sorted.elim isNaN_add_left isNaN_add_right
  · split
    · exact isNaN_mul_left (isNaN_correctedRoot (sorted.imp isNaN_div_left isNaN_div_left))
    · split
      · exact isNaN_div_left (isNaN_correctedRoot (sorted.imp isNaN_mul_left isNaN_mul_left))
      · exact isNaN_correctedRoot sorted

theorem not_hypotenuse_le {x y t : Float} (h : x.isFinite = false ∨ y.isFinite = false)
    (ht : t.isFinite = true) : ¬ hypotenuse x y ≤ t := by
  by_cases infinite : (x.abs == infinity || y.abs == infinity) = true
  · unfold hypotenuse
    dsimp only
    rw [if_pos infinite]
    exact infinity_not_le ht
  · have missing {z : Float} (bounded : ¬ (z.abs == infinity) = true) (h : z.isFinite = false) :
        z.abs.isNaN = true := by
      rcases not_isFinite_iff.mp h with missing | ⟨s, infinite⟩
      · exact isNaN_abs missing
      · exact absurd (abs_beq_infinity infinite) bounded
    have bounded := infinite
    rw [Bool.or_eq_true, not_or] at bounded
    exact not_le_of_isNaN
      (isNaN_hypotenuse infinite (h.imp (missing bounded.1) (missing bounded.2)))

end LaserCut.Binary64

/-! ## Points -/

namespace LaserCut.Point

open Binary64

/-- Both coordinates are finite. -/
def IsFinite (p : Point Float) : Prop := p.x.isFinite = true ∧ p.y.isFinite = true

/-- What is near a finite point is finite. -/
theorem isFinite_of_near {tolerance : Float} {p q : Point Float} (hp : p.IsFinite)
    (ht : tolerance.isFinite = true) (h : p.near tolerance q = true) : q.IsFinite := by
  have close : hypotenuse (p.x - q.x) (p.y - q.y) ≤ tolerance := of_decide_eq_true h
  refine ⟨?_, ?_⟩
  · by_contra far
    rw [Bool.not_eq_true] at far
    exact not_hypotenuse_le (.inl (not_isFinite_sub hp.1 far)) ht close
  · by_contra far
    rw [Bool.not_eq_true] at far
    exact not_hypotenuse_le (.inr (not_isFinite_sub hp.2 far)) ht close

end LaserCut.Point
