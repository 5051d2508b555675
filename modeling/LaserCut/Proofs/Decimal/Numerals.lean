import Mathlib.Algebra.Group.Nat.Defs
import LaserCut.Proofs.Decimal.Characters
import LaserCut.Proofs.PathData.Numeral

/-!
# The texts of finite numbers are numerals

Both are numerals without an exponent:

* `exists_numeral_shortest`: the shortest text of a finite number writes the digits and the power of
  ten that were found for the number;
* `exists_numeral_placed`: the text with so many places writes a whole number of units of the last
  place.
-/

namespace LaserCut.Decimal

open Literal (digitsValue)

/-! ## Digits and zeros -/

theorem digitsValue_toDigits (n : Nat) : digitsValue (Nat.toDigits 10 n) = n :=
  Nat.ofDigitChars_toDigits (by decide) (by decide)

theorem digitsValue_zeros_append (count : Nat) (ds : List Char) :
    digitsValue (List.replicate count '0' ++ ds) = digitsValue ds := by
  induction count with
  | zero => rfl
  | succ count ih => exact ih

theorem digitsValue_append_zeros (ds : List Char) (count : Nat) :
    digitsValue (ds ++ List.replicate count '0') = digitsValue ds * 10 ^ count := by
  induction count with
  | zero => simp
  | succ count ih =>
    rw [List.replicate_succ', ← List.append_assoc, digitsValue, List.foldl_append]
    show 10 * digitsValue (ds ++ List.replicate count '0') + 0 = _
    rw [ih, Nat.pow_succ, Nat.add_zero, Nat.mul_comm 10, Nat.mul_assoc]

/-! ## Numerals -/

/-- The literal that the shortest text of a finite number writes. -/
def shown (x : Float) : Literal :=
  match parts x with
  | .nan => .nan
  | .infinite negative => .infinite negative
  | .finite negative mantissa exponent =>
    if mantissa = 0 then .decimal negative 0 0
    else
      let (n, e) := shortestDigits mantissa exponent
      .decimal negative (n * 10 ^ e.toNat) (min e 0)

/-- The sign of a numeral that may have a minus. -/
def minus (negative : Bool) : Option Bool := if negative then some true else none

theorem signText_minus (negative : Bool) : signText (minus negative) = (sign negative).toList := by
  cases negative <;> rfl

theorem minus_eq (negative : Bool) : (minus negative == some true) = negative := by
  cases negative <;> rfl

/-- Digits without a point, those of `n` and then zeros. -/
theorem exists_numeral_whole (negative : Bool) (n count : Nat) :
    ∃ m : Numeral,
      m.text = (sign negative).toList ++ (Nat.toDigits 10 n ++ List.replicate count '0') ∧
      m.value = .decimal negative (n * 10 ^ count) 0 := by
  refine ⟨⟨minus negative, Nat.toDigits 10 n ++ List.replicate count '0', none, none, ?_, nofun,
    ?_⟩, ?_, ?_⟩
  · intro c hc
    rcases List.mem_append.mp hc with hc | hc
    · exact isDigit_of_mem_toDigits hc
    · rw [List.eq_of_mem_replicate hc]
      rfl
  · simp [Nat.toDigits_ne_nil]
  · simp [Numeral.text, Numeral.fractionText, Numeral.exponentText, signText_minus]
  · simp [Numeral.value, minus_eq, digitsValue_append_zeros, digitsValue_toDigits]

/-- Digits with a point before the last so many, those of `n` after zeros. -/
theorem exists_numeral_pointed (negative : Bool) (n : Nat) {count places : Nat}
    (enough : places ≤ (List.replicate count '0' ++ Nat.toDigits 10 n).length) :
    let ds := List.replicate count '0' ++ Nat.toDigits 10 n
    ∃ m : Numeral,
      m.text = (sign negative).toList ++
        (ds.take (ds.length - places) ++ '.' :: ds.drop (ds.length - places)) ∧
      m.value = .decimal negative n (-places) := by
  intro ds
  have digits : ∀ c ∈ ds, c.isDigit = true := fun _ => isDigit_of_mem_zeros_append
  refine ⟨⟨minus negative, ds.take (ds.length - places), some (ds.drop (ds.length - places)), none,
    fun c hc => digits c (List.mem_of_mem_take hc), ?_, ?_⟩, ?_, ?_⟩
  · rintro f ⟨⟩ c hc
    exact digits c (List.mem_of_mem_drop hc)
  · simp [ds, Nat.toDigits_ne_nil]
  · simp [Numeral.text, Numeral.fractionText, Numeral.exponentText, signText_minus]
  · have value : digitsValue ds = n := (digitsValue_zeros_append _ _).trans (digitsValue_toDigits n)
    have length : ((ds.drop (ds.length - places)).length : Int) = places := by
      rw [List.length_drop]
      have : places ≤ ds.length := enough
      omega
    simp only [Numeral.value, minus_eq, Option.getD_some, List.take_append_drop, value, length,
      Option.map_none, Option.getD_none, Int.zero_sub]

theorem exists_numeral_positional (negative : Bool) (n : Nat) (e : Int) :
    ∃ m : Numeral, m.text = (sign negative ++ positional n e).toList ∧
      m.value = .decimal negative (n * 10 ^ e.toNat) (min e 0) := by
  rw [String.toList_append]
  unfold positional
  dsimp only
  split
  · rename_i he
    rw [String.toList_ofList, Int.min_eq_right he]
    exact exists_numeral_whole negative n e.toNat
  · rename_i he
    obtain ⟨places, rfl⟩ : ∃ places : Nat, e = -places := ⟨(-e).toNat, by omega⟩
    rw [show (-(places : Int)).toNat = 0 by omega, Nat.pow_zero, Nat.mul_one,
      Int.min_eq_left (by omega), Int.neg_neg, Int.toNat_natCast]
    simp only [String.toList_append, String.toList_ofList, List.append_assoc]
    refine exists_numeral_pointed negative n ?_
    rw [List.length_append, List.length_replicate]
    omega

theorem exists_parts_of_isFinite {x : Float} (h : x.isFinite = true) :
    ∃ negative mantissa exponent, parts x = .finite negative mantissa exponent := by
  have finite : x.toModel.unpack.isFinite = true := h
  unfold parts
  revert finite
  cases x.toModel.unpack with
  | notANumber | infinity => exact nofun
  | zero | finite => exact fun _ => ⟨_, _, _, rfl⟩

/-- The shortest text of a finite number is a numeral. -/
theorem exists_numeral_shortest {x : Float} (h : x.isFinite = true) :
    ∃ n : Numeral, n.text = (shortest x).toList ∧ n.value = shown x := by
  obtain ⟨negative, mantissa, exponent, hp⟩ := exists_parts_of_isFinite h
  unfold shortest shown
  rw [hp]
  dsimp only
  split
  · exact exists_numeral_positional negative 0 0
  · exact exists_numeral_positional negative _ _

/-! ## Fixed places -/

theorem exists_numeral_placed (negative : Bool) (places n : Nat) :
    ∃ m : Numeral, m.text = (sign negative ++ placed places n).toList ∧
      m.value = .decimal negative n (-places) := by
  rw [String.toList_append]
  unfold placed
  split
  · rename_i none
    obtain ⟨m, text, value⟩ := exists_numeral_whole negative n 0
    rw [List.replicate_zero, List.append_nil] at text
    have digits : padded 1 n = Nat.toDigits 10 n := by
      have : 1 - (Nat.toDigits 10 n).length = 0 := by
        have := List.length_pos_iff.mpr (Nat.toDigits_ne_nil (n := n) (b := 10))
        omega
      rw [padded, this]
      rfl
    refine ⟨m, by rw [text, String.toList_ofList, digits], ?_⟩
    rw [value, none, Nat.pow_zero, Nat.mul_one]
    rfl
  · simp only [String.toList_append, String.toList_ofList, List.append_assoc]
    refine exists_numeral_pointed negative n ?_
    rw [List.length_append, List.length_replicate]
    omega

/-- The text with so many places of a number that is `num / den` apart from its sign. -/
def fixedText (places : Nat) (negative : Bool) (num den : Nat) : String :=
  sign negative ++ placed places (roundHalfEven (num * Nat.pow 10 places) den)

/-- The program writes the parts of a finite number so. -/
theorem fixed_of_parts {x : Float} {negative : Bool} {mantissa : Nat} {exponent : Int}
    (h : parts x = .finite negative mantissa exponent) (places : Nat) :
    fixed places x = fixedText places negative (fraction mantissa exponent).1
      (fraction mantissa exponent).2 := by
  rw [fixed, h]
  rfl

theorem roundHalfEven_mul {den : Nat} (h : 0 < den) (n : Nat) :
    roundHalfEven (n * den) den = n := by
  rw [roundHalfEven, Nat.mul_div_cancel n h, Nat.mul_mod_left]
  exact if_pos h

end LaserCut.Decimal
