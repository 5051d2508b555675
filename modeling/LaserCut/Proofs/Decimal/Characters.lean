import LaserCut.Decimal.Fixed
import LaserCut.Decimal.Shortest

/-!
# Characters of numbers

The texts of numbers are made of letters, digits, minus signs and points, so that blanks and
semicolons around them can be told apart from them (`IsPrinted.isNumberChar_of_mem`). Only the texts
of numbers that are not finite have letters, and these are three texts
(`IsPrinted.mem_specials_iff`).
-/

namespace LaserCut.Decimal

/-- A character that the text of a number may have. -/
def isNumberChar (c : Char) : Bool := c.isAlphanum || c == '-' || c == '.'

/-- A character that the text of a finite number may have. -/
def isNumeralChar (c : Char) : Bool := c.isDigit || c == '-' || c == '.'

theorem isNumberChar_of_isNumeralChar {c : Char} (h : isNumeralChar c = true) :
    isNumberChar c = true := by
  rw [isNumeralChar, Bool.or_eq_true, Bool.or_eq_true] at h
  rw [isNumberChar, Bool.or_eq_true, Bool.or_eq_true, Char.isAlphanum, Bool.or_eq_true]
  exact h.imp (.imp_left .inr) id

theorem isNumeralChar_of_isDigit {c : Char} (h : c.isDigit = true) : isNumeralChar c = true := by
  simp [isNumeralChar, h]

theorem isNumberChar_of_isDigit {c : Char} (h : c.isDigit = true) : isNumberChar c = true :=
  isNumberChar_of_isNumeralChar (isNumeralChar_of_isDigit h)

section Pieces

variable {c : Char}

theorem isNumeralChar_of_mem_sign {negative : Bool} (h : c ∈ (sign negative).toList) :
    isNumeralChar c = true := by
  have all : (sign negative).toList.all isNumeralChar = true := by
    rcases negative with _ | _ <;> rfl
  exact List.all_eq_true.mp all c h

theorem isDigit_of_mem_toDigits {n : Nat} (h : c ∈ Nat.toDigits 10 n) : c.isDigit = true :=
  Nat.isDigit_of_mem_toDigits (by decide) (by decide) h

/-- Digits with zeros in front. -/
theorem isDigit_of_mem_zeros_append {count n : Nat}
    (h : c ∈ List.replicate count '0' ++ Nat.toDigits 10 n) : c.isDigit = true := by
  rcases List.mem_append.mp h with h | h
  · rw [List.eq_of_mem_replicate h]
    rfl
  · exact isDigit_of_mem_toDigits h

/-- Digits with a point among them. -/
theorem isNumeralChar_of_mem_pointed {ds : List Char} {whole : Nat}
    (digits : ∀ c ∈ ds, c.isDigit = true)
    (h : c ∈ (String.ofList (ds.take whole) ++ "." ++ String.ofList (ds.drop whole)).toList) :
    isNumeralChar c = true := by
  simp only [String.toList_append, String.toList_ofList, List.mem_append] at h
  rcases h with (h | h) | h
  · exact isNumeralChar_of_isDigit (digits c (List.mem_of_mem_take h))
  · rw [List.mem_singleton.mp h]
    rfl
  · exact isNumeralChar_of_isDigit (digits c (List.mem_of_mem_drop h))

theorem isNumeralChar_of_mem_placed {places n : Nat} (h : c ∈ (placed places n).toList) :
    isNumeralChar c = true := by
  unfold placed at h
  split at h
  · rw [String.toList_ofList] at h
    exact isNumeralChar_of_isDigit (isDigit_of_mem_zeros_append h)
  · exact isNumeralChar_of_mem_pointed (fun _ => isDigit_of_mem_zeros_append) h

theorem isNumeralChar_of_mem_positional {n : Nat} {e : Int} (h : c ∈ (positional n e).toList) :
    isNumeralChar c = true := by
  unfold positional at h
  dsimp only at h
  split at h
  · rw [String.toList_ofList, List.mem_append] at h
    rcases h with h | h
    · exact isNumeralChar_of_isDigit (isDigit_of_mem_toDigits h)
    · rw [List.eq_of_mem_replicate h]
      rfl
  · exact isNumeralChar_of_mem_pointed (fun _ => isDigit_of_mem_zeros_append) h

end Pieces

/-! ## Numbers that are not finite -/

/-- The texts of the numbers that are not finite. -/
def specials : List String := ["NaN", special false, special true]

theorem not_mem_specials {text : String} (h : ∀ c ∈ text.toList, isNumeralChar c = true) :
    text ∉ specials := by
  intro mem
  simp only [specials, List.mem_cons, List.not_mem_nil, or_false] at mem
  rcases mem with rfl | rfl | rfl
  · exact Bool.false_ne_true (h 'N' (by decide))
  · exact Bool.false_ne_true (h 'n' (by decide))
  · exact Bool.false_ne_true (h 'n' (by decide))

theorem special_mem_specials (negative : Bool) : special negative ∈ specials := by
  rcases negative with _ | _
  · exact .tail _ (.head _)
  · exact .tail _ (.tail _ (.head _))

/-- A text for a number: one of the three if the number is not finite, and a numeral if it is. -/
def IsPrinted (x : Float) (text : String) : Prop :=
  x.isFinite = false ∧ text ∈ specials ∨
    x.isFinite = true ∧ ∀ c ∈ text.toList, isNumeralChar c = true

section Printed

variable {x : Float} {text : String}

theorem IsPrinted.mem_specials_iff (h : IsPrinted x text) :
    text ∈ specials ↔ x.isFinite = false := by
  rcases h with ⟨infinite, mem⟩ | ⟨finite, numeral⟩
  · exact iff_of_true mem infinite
  · rw [finite]
    exact iff_of_false (not_mem_specials numeral) (Ne.symm Bool.false_ne_true)

theorem IsPrinted.isNumberChar_of_mem (h : IsPrinted x text) {c : Char} (hc : c ∈ text.toList) :
    isNumberChar c = true := by
  rcases h with ⟨-, mem⟩ | ⟨-, numeral⟩
  · have all : specials.all (·.toList.all isNumberChar) = true := rfl
    exact List.all_eq_true.mp (List.all_eq_true.mp all text mem) c hc
  · exact isNumberChar_of_isNumeralChar (numeral c hc)

/-- The parts of a number tell whether it is finite. -/
theorem isPrinted_of_parts
    (nan : parts x = .nan → text ∈ specials)
    (infinite : ∀ negative, parts x = .infinite negative → text ∈ specials)
    (finite : ∀ negative mantissa exponent, parts x = .finite negative mantissa exponent →
      ∀ c ∈ text.toList, isNumeralChar c = true) : IsPrinted x text := by
  unfold parts at nan infinite finite
  show x.toModel.unpack.isFinite = false ∧ _ ∨ x.toModel.unpack.isFinite = true ∧ _
  generalize x.toModel.unpack = u at *
  cases u with
  | notANumber => exact .inl ⟨rfl, nan rfl⟩
  | infinity => exact .inl ⟨rfl, infinite _ rfl⟩
  | zero | finite => exact .inr ⟨rfl, finite _ _ _ rfl⟩

end Printed

theorem isPrinted_fixed (places : Nat) (x : Float) : IsPrinted x (fixed places x) := by
  unfold fixed
  refine isPrinted_of_parts (fun nan => ?_) (fun negative infinite => ?_)
    fun negative mantissa exponent finite c hc => ?_
  · rw [nan]
    exact .head _
  · rw [infinite]
    exact special_mem_specials negative
  · rw [finite] at hc
    dsimp only at hc
    rw [String.toList_append, List.mem_append] at hc
    exact hc.elim isNumeralChar_of_mem_sign isNumeralChar_of_mem_placed

theorem isPrinted_shortest (x : Float) : IsPrinted x (shortest x) := by
  unfold shortest
  refine isPrinted_of_parts (fun nan => ?_) (fun negative infinite => ?_)
    fun negative mantissa exponent finite c hc => ?_
  · rw [nan]
    exact .head _
  · rw [infinite]
    exact special_mem_specials negative
  · rw [finite] at hc
    dsimp only at hc
    split at hc <;> rw [String.toList_append, List.mem_append] at hc
    · rcases hc with hc | hc
      · exact isNumeralChar_of_mem_sign hc
      · rw [List.mem_singleton.mp hc]
        rfl
    · exact hc.elim isNumeralChar_of_mem_sign isNumeralChar_of_mem_positional

end LaserCut.Decimal
