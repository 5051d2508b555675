/-!
# Number literals

A number as text writes it, before any arithmetic rounds it.

* `Literal`: not a number, an infinity, or a signed decimal `mantissa · 10 ^ exponent`;
* `Literal.read`: the longest decimal numeral that a text begins with, and the rest of the text;
* `Literal.ofChars?`: a text that is one literal from end to end.
-/

namespace LaserCut

/-- A number as text writes it. -/
inductive Literal
  | nan
  | infinite (negative : Bool)
  | decimal (negative : Bool) (mantissa : Nat) (exponent : Int)
deriving DecidableEq, Repr

namespace Literal

/-- The value of a run of digits. -/
def digitsValue (ds : List Char) : Nat :=
  ds.foldl (fun n d => 10 * n + (d.toNat - '0'.toNat)) 0

/-- An optional sign, and whether it is a minus. -/
def readSign : List Char → Bool × List Char
  | '-' :: cs => (true, cs)
  | '+' :: cs => (false, cs)
  | cs => (false, cs)

/-- The digits after an optional point. -/
def readFraction : List Char → List Char × List Char
  | '.' :: cs => (cs.takeWhile Char.isDigit, cs.dropWhile Char.isDigit)
  | cs => ([], cs)

/-- The exponent that `e` and digits give. Without digits nothing is read, not even the `e`. -/
def readExponent : List Char → Int × List Char
  | [] => (0, [])
  | c :: cs =>
    if c = 'e' ∨ c = 'E' then
      let (negative, ds) := readSign cs
      if (ds.takeWhile Char.isDigit).isEmpty then (0, c :: cs)
      else
        let n : Int := digitsValue (ds.takeWhile Char.isDigit)
        (if negative then -n else n, ds.dropWhile Char.isDigit)
    else (0, c :: cs)

/-- The longest numeral that a text begins with, and what follows it: an optional sign, digits with
an optional point and at least one digit, and an exponent if digits follow its `e`. -/
def read (cs : List Char) : Option (Literal × List Char) :=
  let (negative, body) := readSign cs
  let whole := body.takeWhile Char.isDigit
  let (fraction, tail) := readFraction (body.dropWhile Char.isDigit)
  if whole.isEmpty && fraction.isEmpty then none
  else
    let (exponent, rest) := readExponent tail
    some (.decimal negative (digitsValue (whole ++ fraction)) (exponent - fraction.length), rest)

/-- The literals that are words, in any case of letters, with an optional sign. -/
def ofWord? (cs : List Char) : Option Literal :=
  let (negative, word) := readSign cs
  match String.ofList (word.map Char.toLower) with
  | "nan" => some .nan
  | "inf" | "infinity" => some (.infinite negative)
  | _ => none

/-- A text that is one literal from end to end. -/
def ofChars? (cs : List Char) : Option Literal :=
  match read cs with
  | some (literal, []) => some literal
  | _ => ofWord? cs

/-- A natural number, exactly. -/
def ofNat (n : Nat) : Literal :=
  .decimal false n 0

/-! ## What is left is shorter -/

theorem length_readSign (cs : List Char) : (readSign cs).2.length ≤ cs.length := by
  unfold readSign; split <;> simp

theorem length_dropWhile_le (p : Char → Bool) (cs : List Char) :
    (cs.dropWhile p).length ≤ cs.length :=
  (List.dropWhile_suffix p).length_le

theorem length_readFraction (cs : List Char) :
    (readFraction cs).2.length + (readFraction cs).1.length ≤ cs.length := by
  unfold readFraction
  split
  · rename_i cs
    have := congrArg List.length (List.takeWhile_append_dropWhile (p := Char.isDigit) (l := cs))
    simp only [List.length_append] at this
    simp only [List.length_cons]
    omega
  · simp

theorem length_readExponent (cs : List Char) : (readExponent cs).2.length ≤ cs.length := by
  unfold readExponent
  split
  · simp
  · rename_i c cs
    split
    · dsimp only
      split
      · simp
      · have h₁ := length_readSign cs
        have h₂ := length_dropWhile_le Char.isDigit (readSign cs).2
        simp only [List.length_cons]
        omega
    · simp

/-- A numeral takes at least one character. -/
theorem length_lt_of_read {cs rest : List Char} {l : Literal} (h : read cs = some (l, rest)) :
    rest.length < cs.length := by
  unfold read at h
  dsimp only at h
  split at h
  · simp at h
  · rename_i hd
    simp only [Option.some.injEq, Prod.mk.injEq] at h
    obtain ⟨-, rfl⟩ := h
    have h₁ := length_readSign cs
    have h₂ := length_readFraction ((readSign cs).2.dropWhile Char.isDigit)
    have h₃ := length_readExponent (readFraction ((readSign cs).2.dropWhile Char.isDigit)).2
    have h₄ := congrArg List.length
      (List.takeWhile_append_dropWhile (p := Char.isDigit) (l := (readSign cs).2))
    simp only [List.length_append] at h₄
    have h₅ : 0 < ((readSign cs).2.takeWhile Char.isDigit).length +
        (readFraction ((readSign cs).2.dropWhile Char.isDigit)).1.length := by
      rcases hw : (readSign cs).2.takeWhile Char.isDigit with _ | ⟨a, as⟩
      · rcases hf : (readFraction ((readSign cs).2.dropWhile Char.isDigit)).1 with _ | ⟨b, bs⟩
        · simp [hw, hf] at hd
        · simp
      · simp only [List.length_cons]; omega
    omega

end Literal
end LaserCut
