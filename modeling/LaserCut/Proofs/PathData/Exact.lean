import LaserCut.Proofs.Decimal.Numerals
import LaserCut.Proofs.PathData.Written
import LaserCut.Proofs.Reals

/-!
# Path data without rounding

In exact arithmetic. The numbers that path data can give are the decimals, which make up a ring that
has halves. A printer is exact if it writes decimals with their own values; then path data draws
what it was written from.

* `decimals`, `half_mem_decimals`, `ofLiteral_mem_decimals`: the numbers of path data and what is
  done with them;
* `PrintsExactly`: what is asked of a printer;
* `printsExactly_printed`: decimals with as many places as they take are exact;
* `PrintsExactly.curves_text`: what exact path data draws.
-/

namespace LaserCut.Exact

open PathData (Command curves draw)

/-! ## Decimals -/

/-- The numbers with a last decimal place. -/
def decimals : Subring ℝ where
  carrier := {x | ∃ (k : ℕ) (m : ℤ), x * Scalar.tenPow k = m}
  zero_mem' := ⟨0, 0, by rw [zero_mul, Int.cast_zero]⟩
  one_mem' := ⟨0, 1, by rw [tenPow_eq, pow_zero, mul_one, Int.cast_one]⟩
  neg_mem' := by
    rintro x ⟨k, m, hx⟩
    refine ⟨k, -m, ?_⟩
    rw [Int.cast_neg, ← hx, neg_mul]
  add_mem' := by
    rintro x y ⟨j, m, hx⟩ ⟨k, n, hy⟩
    refine ⟨j + k, m * 10 ^ k + n * 10 ^ j, ?_⟩
    push_cast
    rw [← hx, ← hy, tenPow_eq, tenPow_eq, tenPow_eq]
    ring
  mul_mem' := by
    rintro x y ⟨j, m, hx⟩ ⟨k, n, hy⟩
    refine ⟨j + k, m * n, ?_⟩
    rw [Int.cast_mul, ← hx, ← hy, tenPow_eq, tenPow_eq, tenPow_eq]
    ring

theorem half_mem_decimals {x : ℝ} (h : x ∈ decimals) : x / 2 ∈ decimals := by
  obtain ⟨k, m, h⟩ := h
  refine ⟨k + 1, 5 * m, ?_⟩
  push_cast
  rw [← h, tenPow_eq, tenPow_eq]
  ring

theorem zpow_mem_decimals (e : ℤ) : (10 : ℝ) ^ e ∈ decimals := by
  obtain ⟨k, rfl | rfl⟩ := e.eq_nat_or_neg
  · rw [zpow_natCast]
    exact pow_mem (ofNat_mem decimals 10) k
  · refine ⟨k, 1, ?_⟩
    rw [zpow_neg, zpow_natCast, tenPow_eq, inv_mul_cancel₀ (by positivity), Int.cast_one]

theorem ofLiteral_mem_decimals (l : Literal) : ofLiteral l ∈ decimals := by
  cases l with
  | nan | infinite => exact zero_mem decimals
  | decimal negative mantissa exponent =>
    have sign : (if negative then -1 else 1 : ℝ) ∈ decimals := by
      split
      · exact neg_mem (one_mem decimals)
      · exact one_mem decimals
    exact mul_mem (mul_mem sign (natCast_mem decimals mantissa)) (zpow_mem_decimals exponent)

/-! ## Printers -/

/-- A printer that writes every decimal as a numeral with its value. -/
def PrintsExactly (write : ℝ → String) : Prop :=
  ∀ x ∈ decimals, ∃ n : Numeral, n.text = (write x).toList ∧ ofLiteral n.value = x

/-- The fewest places after the point that a decimal takes. -/
noncomputable def places (x : ℝ) : ℕ := sInf {k : ℕ | ∃ m : ℤ, x * Scalar.tenPow k = m}

theorem exists_mul_places_eq {x : ℝ} (h : x ∈ decimals) : ∃ m : ℤ, x * 10 ^ places x = m :=
  Nat.sInf_mem (s := {k : ℕ | ∃ m : ℤ, x * Scalar.tenPow k = m}) h

/-- A decimal as written with the fewest places. -/
noncomputable def printed (x : ℝ) : String :=
  Decimal.sign (decide (x < 0)) ++ Decimal.positional ⌊|x| * Scalar.tenPow (places x)⌋₊ (-places x)

theorem floor_mul_places {x : ℝ} (h : x ∈ decimals) :
    (⌊|x| * 10 ^ places x⌋₊ : ℝ) = |x| * 10 ^ places x := by
  obtain ⟨m, whole⟩ := exists_mul_places_eq h
  have units : |x| * 10 ^ places x = (m.natAbs : ℝ) := by
    rw [Nat.cast_natAbs, Int.cast_abs, ← whole, abs_mul, abs_pow, Nat.abs_ofNat]
  rw [units, Nat.floor_natCast]

theorem sign_mul_abs (x : ℝ) : (if decide (x < 0) then -1 else 1) * |x| = x := by
  rcases lt_or_ge x 0 with negative | nonneg
  · rw [decide_eq_true negative, if_pos rfl, abs_of_neg negative, neg_mul_neg, one_mul]
  · rw [decide_eq_false nonneg.not_gt, if_neg Bool.false_ne_true, abs_of_nonneg nonneg, one_mul]

theorem printsExactly_printed : PrintsExactly printed := by
  intro x h
  obtain ⟨n, text, value⟩ := Decimal.exists_numeral_positional (decide (x < 0))
    ⌊|x| * 10 ^ places x⌋₊ (-places x)
  refine ⟨n, text, ?_⟩
  have exponents : (-(places x : ℤ)).toNat = 0 ∧ min (-(places x : ℤ)) 0 = -places x := by omega
  rw [value, exponents.1, exponents.2, pow_zero, mul_one, ofLiteral, floor_mul_places h,
    ← mul_assoc, sign_mul_abs, zpow_neg, zpow_natCast, mul_inv_cancel_right₀ (by positivity)]

/-! ## What is drawn -/

/-- Words in the place of the numbers that are no decimals. -/
noncomputable def decimalOrWord (write : ℝ → String) (x : ℝ) : String :=
  open Classical in if x ∈ decimals then write x else "NaN"

theorem exists_legible {write : ℝ → String} (exact : PrintsExactly write) :
    ∃ literal, PathData.Legible (decimalOrWord write) (· ∈ decimals) literal ∧
      ∀ x ∈ decimals, ofLiteral (literal x) = x := by
  have : Nonempty Numeral := ⟨(exact 0 (zero_mem decimals)).choose⟩
  choose! numeral text value using exact
  refine ⟨fun x => (numeral x).value, ⟨fun x h => ⟨numeral x, ?_, rfl⟩, fun x h tail => ?_⟩, value⟩
  · rw [decimalOrWord, if_pos h]
    exact text x h
  · rw [decimalOrWord, if_neg h]
    exact ⟨rfl, rfl⟩

/-- Path data that is exact draws what it was written from. -/
theorem PrintsExactly.curves_text {write : ℝ → String} (exact : PrintsExactly write)
    {cs : List (Command ℝ)} (first : ∀ c ∈ cs.head?, c.segment.verb = .moveTo)
    (decimal : ∀ c ∈ cs, ∀ x ∈ c.segment.numbers, x ∈ decimals) :
    curves (PathData.text write cs) = .ok (draw cs) := by
  obtain ⟨literal, legible, value⟩ := exists_legible exact
  have written : PathData.text write cs = PathData.text (decimalOrWord write) cs :=
    PathData.text_congr fun c hc x hx => (if_pos (decimal c hc x hx)).symm
  have same : cs.map (Command.map fun x => x) = cs := by
    refine List.map_id'' (fun c => ?_) cs
    obtain ⟨relative, segment⟩ := c
    cases segment <;> rfl
  rw [written, PathData.curves_text legible first decimal
    fun c hc x hx => value x (decimal c hc x hx), same]

end LaserCut.Exact
