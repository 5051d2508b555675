import LaserCut.Geometry.Flatten
import LaserCut.Proofs.Binary64.Scaled

/-!
# Dyadic spans

The parts that the unit interval falls into when it is halved again and again.

* `dyadic k j`: the parameter `j / 2 ^ k`;
* `ExactHalving`: numbers in which the middles of dyadic spans are computed without error. Binary64
  numbers are among them;
* `Span`: a dyadic span, and `Span.Below`, the spans within it.
-/

namespace LaserCut

/-- The number `index / 2 ^ depth`. -/
def dyadic {α : Type} [Scalar α] (depth index : Nat) : α :=
  Scalar.ofNat index / Scalar.ofNat (2 ^ depth)

/-- Halving a dyadic span of the unit interval is exact, as often as flattening halves spans. -/
class ExactHalving (α : Type) [Scalar α] : Prop where
  zero : dyadic 0 0 = (0 : α)
  one : dyadic 0 1 = (1 : α)
  half {k j : Nat} : k < Curve.maxHalvings → j < 2 ^ k →
    (dyadic k j + dyadic k (j + 1)) / Scalar.two = (dyadic (k + 1) (2 * j + 1) : α)
  double {k j : Nat} : k < Curve.maxHalvings → j ≤ 2 ^ k →
    dyadic (k + 1) (2 * j) = (dyadic k j : α)
  lt {k i j : Nat} : k ≤ Curve.maxHalvings → i < j → j ≤ 2 ^ k →
    (dyadic k i : α) < dyadic k j

/-! ## Halving binary64 numbers -/

namespace Binary64

theorem two_pow_le {k : Nat} (hk : k ≤ Curve.maxHalvings) : 2 ^ k ≤ 65536 :=
  Nat.pow_le_pow_right (by decide) hk

theorem dyadic_eq_scaled {k j : Nat} (hk : k ≤ Curve.maxHalvings) (hj : j ≤ 2 ^ k) :
    (dyadic k j : Float) = scaled j (-k) := by
  have := two_pow_le hk
  have : k ≤ 16 := hk
  have quotient :=
    div_scaled (m := j) (by omega) (e := 0) (k := k) (by omega) (by omega) (by decide)
  rw [dyadic, ofNat_eq_scaled (by omega), ofNat_eq_scaled (by omega), quotient, Int.zero_sub]

instance exactHalving : ExactHalving Float where
  zero := dyadic_eq_scaled (by decide) (by decide)
  one := dyadic_eq_scaled (by decide) (by decide)
  half {k j} hk hj := by
    have := two_pow_le (Nat.le_of_lt hk)
    have : k < 16 := hk
    have two : (Scalar.two : Float) = scaled (2 ^ 1) 0 := rfl
    rw [dyadic_eq_scaled (Nat.le_of_lt hk) (Nat.le_of_lt hj),
      dyadic_eq_scaled (Nat.le_of_lt hk) hj, add_scaled (by omega) (by omega) (by omega), two,
      div_scaled (by omega) (by decide) (by omega) (by omega),
      dyadic_eq_scaled hk (by rw [Nat.pow_succ]; omega)]
    congr 1 <;> omega
  double {k j} hk hj := by
    have := two_pow_le (Nat.le_of_lt hk)
    have exponent : -((k + 1 : Nat) : Int) + 1 = -k := by omega
    rw [dyadic_eq_scaled hk (by rw [Nat.pow_succ]; omega), scaled_two_mul _ (by omega), exponent,
      dyadic_eq_scaled (Nat.le_of_lt hk) hj]
  lt {k i j} hk h hj := by
    have := two_pow_le hk
    have : k ≤ 16 := hk
    rw [dyadic_eq_scaled hk (by omega), dyadic_eq_scaled hk hj]
    exact scaled_lt_scaled h (by omega) (by omega) (by omega)

end Binary64

/-! ## Spans -/

/-- One of the `2 ^ depth` equal parts of the unit interval, counted from 0. -/
structure Span where
  depth : Nat
  index : Nat
  index_lt : index < 2 ^ depth
deriving DecidableEq

namespace Span

/-- The unit interval. -/
def whole : Span := ⟨0, 0, Nat.one_pos⟩

variable (s : Span)

def left : Span := ⟨s.depth + 1, 2 * s.index, by have := s.index_lt; rw [Nat.pow_succ]; omega⟩

def right : Span :=
  ⟨s.depth + 1, 2 * s.index + 1, by have := s.index_lt; rw [Nat.pow_succ]; omega⟩

/-- The index of the part at a depth that a span lies in. -/
def indexAt (depth : Nat) : Nat := s.index / 2 ^ (s.depth - depth)

/-- A span lies within another. -/
def Within (r s : Span) : Prop := s.depth ≤ r.depth ∧ r.indexAt s.depth = s.index

/-- A span is a proper part of another. -/
def Below (r s : Span) : Prop := r.Within s ∧ s.depth < r.depth

section Parameters

variable {α : Type} [Scalar α]

def start : α := dyadic s.depth s.index

def finish : α := dyadic s.depth (s.index + 1)

/-- The parameter in the middle of a span. -/
def middle : α := dyadic (s.depth + 1) (2 * s.index + 1)

end Parameters

/-! ### Parts of spans -/

variable {r s t : Span}

theorem indexAt_indexAt {d e : Nat} (hd : d ≤ e) (he : e ≤ r.depth) :
    r.indexAt e / 2 ^ (e - d) = r.indexAt d := by
  rw [indexAt, indexAt, Nat.div_div_eq_div_mul, ← Nat.pow_add]
  congr 2
  omega

theorem Within.refl (s : Span) : s.Within s := by
  refine ⟨Nat.le_refl _, ?_⟩
  rw [indexAt, Nat.sub_self, Nat.pow_zero, Nat.div_one]

theorem within_whole (s : Span) : s.Within whole := by
  refine ⟨Nat.zero_le _, ?_⟩
  show s.index / 2 ^ (s.depth - 0) = 0
  exact Nat.div_eq_of_lt s.index_lt

/-- Spans within the same span of a depth have the same index there. -/
theorem Within.indexAt_eq (h : r.Within s) {d : Nat} (hd : d ≤ s.depth) :
    r.indexAt d = s.indexAt d := by
  rw [← indexAt_indexAt hd h.1, h.2, indexAt]

theorem Within.trans (h : r.Within s) (h' : s.Within t) : r.Within t :=
  ⟨Nat.le_trans h'.1 h.1, (h.indexAt_eq h'.1).trans h'.2⟩

theorem left_within (s : Span) : s.left.Within s := by
  refine ⟨Nat.le_succ _, ?_⟩
  show 2 * s.index / 2 ^ (s.depth + 1 - s.depth) = s.index
  rw [Nat.add_sub_cancel_left]
  omega

theorem right_within (s : Span) : s.right.Within s := by
  refine ⟨Nat.le_succ _, ?_⟩
  show (2 * s.index + 1) / 2 ^ (s.depth + 1 - s.depth) = s.index
  rw [Nat.add_sub_cancel_left]
  omega

/-- What lies within a left half does not reach the end of the unit interval. -/
theorem Within.index_ne_of_left (h : r.Within s.left) : r.index + 1 ≠ 2 ^ r.depth := by
  let d := r.depth - s.left.depth
  have depth : s.left.depth + d = r.depth := Nat.add_sub_cancel' h.1
  have inside : r.index < (s.left.index + 1) * 2 ^ d := by
    rw [← h.2, indexAt, ← Nat.div_lt_iff_lt_mul (Nat.two_pow_pos d)]
    exact Nat.lt_succ_self _
  have next : (s.left.index + 1) * 2 ^ d < 2 ^ r.depth := by
    rw [← depth, Nat.pow_add]
    refine Nat.mul_lt_mul_of_pos_right ?_ (Nat.two_pow_pos d)
    have := s.index_lt
    show 2 * s.index + 1 < 2 ^ (s.depth + 1)
    rw [Nat.pow_succ]
    omega
  omega

/-- A proper part of a span lies within one of its halves. -/
theorem Below.left_or_right (h : r.Below s) : r.Within s.left ∨ r.Within s.right := by
  have half := indexAt_indexAt (Nat.le_add_right s.depth 1) h.2
  rw [h.1.2, Nat.add_sub_cancel_left, Nat.pow_one] at half
  rcases Nat.mod_two_eq_zero_or_one (r.indexAt (s.depth + 1)) with even | odd
  · refine .inl ⟨h.2, ?_⟩
    show r.indexAt (s.depth + 1) = 2 * s.index
    omega
  · refine .inr ⟨h.2, ?_⟩
    show r.indexAt (s.depth + 1) = 2 * s.index + 1
    omega

/-- Nothing lies within both halves of a span. -/
theorem not_within_right (h : r.Within s.left) : ¬ r.Within s.right := by
  intro h'
  have same : s.left.index = s.right.index := h.2.symm.trans h'.2
  have : 2 * s.index = 2 * s.index + 1 := same
  omega

theorem eq_of_within (h : r.Within s) (depth : r.depth ≤ s.depth) : r = s := by
  have same : r.depth = s.depth := Nat.le_antisymm depth h.1
  have index := h.2
  rw [indexAt, same, Nat.sub_self, Nat.pow_zero, Nat.div_one] at index
  obtain ⟨d, i, _⟩ := r
  obtain ⟨e, j, _⟩ := s
  cases same
  cases index
  rfl

/-! ### Ends of spans -/

section Ends

variable {α : Type} [Scalar α] [ExactHalving α]

theorem start_whole : (whole.start : α) = 0 := ExactHalving.zero

theorem finish_whole : (whole.finish : α) = 1 := ExactHalving.one

variable (h : s.depth < Curve.maxHalvings)

include h

theorem half_start_finish : (s.start + s.finish) / Scalar.two = (s.middle : α) :=
  ExactHalving.half h s.index_lt

theorem start_left : (s.left.start : α) = s.start :=
  ExactHalving.double h (Nat.le_of_lt s.index_lt)

theorem finish_right : (s.right.finish : α) = s.finish := ExactHalving.double h s.index_lt

end Ends

theorem finish_left {α : Type} [Scalar α] (s : Span) : (s.left.finish : α) = s.middle := rfl

theorem start_right {α : Type} [Scalar α] (s : Span) : (s.right.start : α) = s.middle := rfl

theorem start_lt_finish {α : Type} [Scalar α] [ExactHalving α] (h : s.depth ≤ Curve.maxHalvings) :
    (s.start : α) < s.finish := ExactHalving.lt h (Nat.lt_succ_self _) s.index_lt

end Span
end LaserCut
