import LaserCut.Proofs.PathData.Written

/-!
# Literals as they are written

A literal is a numeral, or one of three words in any case of letters, with a sign or without. What
is read as a literal from end to end is written so.

* `Literal.Spells`, `Literal.ofChars?_eq_some_iff`: the texts of a literal;
* `PathData.read_field`: a field that is a number is the longest numeral at its place.
-/

namespace LaserCut

/-! ## Letters -/

namespace Text

theorem toLower_of_not_isAlpha {c : Char} (h : c.isAlpha = false) : c.toLower = c := by
  have h : (c.isUpper || c.isLower) = false := h
  rw [Bool.or_eq_false_iff] at h
  exact dif_neg (of_decide_eq_false h.1)

theorem isAlpha_of_toLower {c : Char} (h : c.toLower.isAlpha = true) : c.isAlpha = true := by
  cases other : c.isAlpha with
  | true => rfl
  | false => rwa [toLower_of_not_isAlpha other, other] at h

/-- A text that is a word but for the case of its letters. -/
theorem isAlpha_of_map_toLower {cs word : List Char} (same : cs.map Char.toLower = word)
    (letters : word.all Char.isAlpha = true) : ∀ c ∈ cs, c.isAlpha = true := fun _ hc =>
  isAlpha_of_toLower (List.all_eq_true.mp letters _ (same ▸ List.mem_map_of_mem hc))

end Text

namespace PathData

/-! ## Beginnings of numbers -/

theorem startsNumber_of_isAlpha {c : Char} (h : c.isAlpha = true) : startsNumber c = false :=
  Bool.eq_false_iff.mpr fun starts =>
    Bool.false_ne_true ((not_isAlpha_of_startsNumber starts).symm.trans h)

theorem isListSeparator_of_startsNumber {c : Char} (h : startsNumber c = true) :
    Text.isListSeparator c = false := by
  simp only [startsNumber, Bool.or_eq_true, beq_iff_eq] at h
  rcases h with ((digit | rfl) | rfl) | rfl
  · exact Text.isListSeparator_of_isDigit digit
  all_goals rfl

theorem unsigned_of_not_startsNumber {c : Char} (h : startsNumber c = false) (cs : List Char) :
    Literal.Unsigned (c :: cs) := by
  simp only [startsNumber, Bool.or_eq_false_iff, beq_eq_false_iff_ne] at h
  rintro _ ⟨⟩
  exact ⟨h.1.1.2, h.1.2⟩

/-- Where no number can begin, none is read, with a sign or without. -/
theorem read_eq_none {c : Char} (h : startsNumber c = false) (s : Option Bool) (cs : List Char) :
    Literal.read (signText s ++ c :: cs) = none := by
  rw [Literal.read, Literal.readSign_append s (unsigned_of_not_startsNumber h cs)]
  simp only [startsNumber, Bool.or_eq_false_iff, beq_eq_false_iff_ne] at h
  obtain ⟨⟨⟨digit, -⟩, -⟩, point⟩ := h
  dsimp only
  rw [List.takeWhile_cons_of_neg (by simp [digit]), List.dropWhile_cons_of_neg (by simp [digit])]
  unfold Literal.readFraction
  split
  · rename_i same
    exact absurd (List.cons.inj same).1 point
  · rfl

end PathData

namespace Literal

open PathData

variable {l : Literal} {cs : List Char}

/-! ## Words -/

/-- A literal that is a word. -/
inductive SpellsWord : Literal → List Char → Prop
  | nan {sign : Option Bool} {word : List Char} : word.map Char.toLower = ['n', 'a', 'n'] →
    SpellsWord .nan (signText sign ++ word)
  | inf {sign : Option Bool} {word : List Char} : word.map Char.toLower = ['i', 'n', 'f'] →
    SpellsWord (.infinite (sign == some true)) (signText sign ++ word)
  | infinity {sign : Option Bool} {word : List Char} :
    word.map Char.toLower = ['i', 'n', 'f', 'i', 'n', 'i', 't', 'y'] →
    SpellsWord (.infinite (sign == some true)) (signText sign ++ word)

/-- A word is a sign and letters, of which there is one at least. -/
theorem SpellsWord.exists_letters (h : l.SpellsWord cs) :
    ∃ sign c word, cs = signText sign ++ c :: word ∧ ∀ d ∈ c :: word, d.isAlpha = true := by
  have letters {sign : Option Bool} {word text : List Char} {c : Char}
      (same : word.map Char.toLower = c :: text) (alpha : (c :: text).all Char.isAlpha = true) :
      ∃ s d rest, signText sign ++ word = signText s ++ d :: rest ∧
        ∀ e ∈ d :: rest, e.isAlpha = true := by
    have all := Text.isAlpha_of_map_toLower same alpha
    obtain ⟨d, rest, rfl, -⟩ := List.map_eq_cons_iff.mp same
    exact ⟨sign, d, rest, rfl, all⟩
  cases h with
  | nan same => exact letters same rfl
  | inf same => exact letters same rfl
  | infinity same => exact letters same rfl

theorem readSign_word {sign : Option Bool} {word text : List Char} {c : Char}
    (same : word.map Char.toLower = c :: text) (letter : c.isAlpha = true) :
    readSign (signText sign ++ word) = (sign == some true, word) := by
  obtain ⟨d, word, rfl, rfl, -⟩ := List.map_eq_cons_iff.mp same
  have starts := startsNumber_of_isAlpha (Text.isAlpha_of_toLower letter)
  exact readSign_append sign (unsigned_of_not_startsNumber starts word)

theorem ofWord?_eq_some_iff : ofWord? cs = some l ↔ l.SpellsWord cs := by
  constructor
  · intro h
    obtain ⟨sign, written, negative⟩ := readSign_eq cs
    unfold ofWord? at h
    dsimp only at h
    rw [negative] at h
    rw [written]
    generalize (readSign cs).2 = word at h
    have lower {text : String} (same : String.ofList (word.map Char.toLower) = text) :
        word.map Char.toLower = text.toList := by
      rw [← same, String.toList_ofList]
    split at h
    · rename_i same
      cases h
      exact .nan (lower same)
    · rename_i same
      cases h
      exact .inf (lower same)
    · rename_i same
      cases h
      exact .infinity (lower same)
    · cases h
  · rintro (same | same | same)
    all_goals
      rw [ofWord?, readSign_word same rfl]
      dsimp only
      rw [same]
      rfl

/-- At a word no numeral is read. -/
theorem SpellsWord.read_append (h : l.SpellsWord cs) (tail : List Char) :
    read (cs ++ tail) = none := by
  obtain ⟨sign, c, word, rfl, letters⟩ := h.exists_letters
  rw [List.append_assoc, List.cons_append]
  exact read_eq_none (startsNumber_of_isAlpha (letters c List.mem_cons_self)) sign _

/-! ## Numerals and words -/

/-- A literal as it is written. -/
inductive Spells : Literal → List Char → Prop
  | numeral (n : Numeral) : Spells n.value n.text
  | word {l : Literal} {cs : List Char} : l.SpellsWord cs → Spells l cs

/-- A text is one literal from end to end exactly if it is written as one. -/
theorem ofChars?_eq_some_iff : ofChars? cs = some l ↔ l.Spells cs := by
  constructor
  · intro h
    unfold ofChars? at h
    split at h
    · rename_i read
      cases h
      obtain ⟨n, rfl, rfl⟩ := exists_numeral_of_read read
      rw [List.append_nil]
      exact .numeral n
    · exact .word (ofWord?_eq_some_iff.mp h)
  · rintro (n | word)
    · exact ofChars?_text n
    · have none := word.read_append []
      rw [List.append_nil] at none
      rw [ofChars?, none]
      exact ofWord?_eq_some_iff.mpr word

namespace Spells

theorem isLiteralChar_of_mem (h : l.Spells cs) {c : Char} (hc : c ∈ cs) :
    isLiteralChar c = true := by
  cases h with
  | numeral n => exact isLiteralChar_of_mem_text hc
  | word word =>
    obtain ⟨sign, d, word, rfl, letters⟩ := word.exists_letters
    exact (List.mem_append.mp hc).elim isLiteralChar_of_mem_signText fun hc =>
      isLiteralChar_of_isAlpha (letters c hc)

theorem ne_nil (h : l.Spells cs) : cs ≠ [] := by
  rintro rfl
  have none : ofChars? [] = none := by decide
  exact absurd (none.symm.trans (ofChars?_eq_some_iff.mpr h)) nofun

end Spells
end Literal

/-- A field that is a number is the longest numeral at its place, unless no numeral is there. -/
theorem PathData.read_field {field tail : List Char} {l : Literal}
    (h : Literal.ofChars? field = some l) (ends : EndsNumber tail) :
    Literal.read (field ++ tail) = some (l, tail) ∨ Literal.read (field ++ tail) = none := by
  rcases Literal.ofChars?_eq_some_iff.mp h with n | word
  · exact .inl (read_text_append n ends)
  · exact .inr (word.read_append tail)

end LaserCut
