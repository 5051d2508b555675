import LaserCut.Decimal.Literal

/-!
# Numerals

The grammar of decimal numerals, stated apart from their reader: an optional sign, digits with an
optional point, at least one digit, and an optional exponent of a mark, an optional sign and at
least one digit (`Numeral`). `Literal.read` reads the longest numeral that a text begins with
(`read_eq_some_iff`), and reads nothing only if there is none (`read_eq_none_iff`).
-/

namespace LaserCut

/-- The exponent of a numeral: a mark, a sign, and digits. -/
structure Exponent where
  mark : Char
  /-- Whether the sign, if there is one, is a minus. -/
  sign : Option Bool
  digits : List Char
  mark_eq : mark = 'e' ∨ mark = 'E'
  isDigit : ∀ c ∈ digits, c.isDigit = true
  ne_nil : digits ≠ []

/-- A decimal numeral as it is written. -/
structure Numeral where
  /-- Whether the sign, if there is one, is a minus. -/
  sign : Option Bool
  whole : List Char
  /-- The digits after the point, if there is a point. -/
  fraction : Option (List Char)
  exponent : Option Exponent
  isDigit_whole : ∀ c ∈ whole, c.isDigit = true
  isDigit_fraction : ∀ f ∈ fraction, ∀ c ∈ f, c.isDigit = true
  ne_nil : whole ++ fraction.getD [] ≠ []

/-- The sign as written. -/
def signText : Option Bool → List Char
  | none => []
  | some true => ['-']
  | some false => ['+']

namespace Exponent

def text (e : Exponent) : List Char := e.mark :: (signText e.sign ++ e.digits)

/-- The exponent of ten. -/
def value (e : Exponent) : Int :=
  if e.sign = some true then -(Literal.digitsValue e.digits : Int) else Literal.digitsValue e.digits

end Exponent

namespace Numeral

def fractionText : Option (List Char) → List Char
  | none => []
  | some f => '.' :: f

def exponentText (e : Option Exponent) : List Char := (e.map Exponent.text).getD []

def text (n : Numeral) : List Char :=
  signText n.sign ++ (n.whole ++ (fractionText n.fraction ++ exponentText n.exponent))

/-- The number that a numeral writes: all its digits, scaled down by those after the point and up by
the exponent. -/
def value (n : Numeral) : Literal :=
  .decimal (n.sign == some true) (Literal.digitsValue (n.whole ++ n.fraction.getD []))
    ((n.exponent.map Exponent.value).getD 0 - (n.fraction.getD []).length)

/-- A text begins with the numeral `n`, and with none longer; `rest` is what follows it. -/
structure Longest (n : Numeral) (cs rest : List Char) : Prop where
  eq_append : cs = n.text ++ rest
  le_of_append : ∀ (m : Numeral) (tail : List Char), cs = m.text ++ tail → rest.length ≤ tail.length

end Numeral

/-! ## Characters -/

/-- A character that a literal may have. -/
def isLiteralChar (c : Char) : Bool := c.isAlphanum || c == '+' || c == '-' || c == '.'

theorem isLiteralChar_of_isAlpha {c : Char} (h : c.isAlpha = true) : isLiteralChar c = true := by
  rw [isLiteralChar, Char.isAlphanum, h]
  rfl

theorem isLiteralChar_of_isDigit {c : Char} (h : c.isDigit = true) : isLiteralChar c = true := by
  rw [isLiteralChar, Char.isAlphanum, h, Bool.or_true]
  rfl

theorem isLiteralChar_of_mem_signText {s : Option Bool} {c : Char} (h : c ∈ signText s) :
    isLiteralChar c = true := by
  rcases s with _ | _ | _
  · cases h
  all_goals
    rw [List.mem_singleton.mp h]
    rfl

theorem isLiteralChar_of_mem_text {n : Numeral} {c : Char} (h : c ∈ n.text) :
    isLiteralChar c = true := by
  have digits {ds : List Char} (hd : ∀ d ∈ ds, d.isDigit = true) (h : c ∈ ds) :
      isLiteralChar c = true := isLiteralChar_of_isDigit (hd c h)
  simp only [Numeral.text, List.mem_append] at h
  rcases h with sign | whole | fraction | exponent
  · exact isLiteralChar_of_mem_signText sign
  · exact digits n.isDigit_whole whole
  · rcases hf : n.fraction with _ | f <;> rw [hf] at fraction
    · cases fraction
    · rcases List.mem_cons.mp fraction with rfl | fraction
      · rfl
      · exact digits (n.isDigit_fraction f hf) fraction
  · rcases he : n.exponent with _ | e <;> rw [he] at exponent
    · cases exponent
    · rcases List.mem_cons.mp exponent with rfl | exponent
      · rcases e.mark_eq with mark | mark <;> rw [mark] <;> rfl
      · exact (List.mem_append.mp exponent).elim isLiteralChar_of_mem_signText (digits e.isDigit)

namespace Literal

/-! ## What is read is a numeral -/

theorem readSign_eq (cs : List Char) :
    ∃ s, cs = signText s ++ (readSign cs).2 ∧ (readSign cs).1 = (s == some true) := by
  unfold readSign
  split
  · exact ⟨some true, rfl, rfl⟩
  · exact ⟨some false, rfl, rfl⟩
  · exact ⟨none, rfl, rfl⟩

theorem isDigit_takeWhile (cs : List Char) : ∀ c ∈ cs.takeWhile Char.isDigit, c.isDigit = true :=
  List.all_eq_true.mp List.all_takeWhile

theorem readFraction_eq (cs : List Char) :
    ∃ f, cs = Numeral.fractionText f ++ (readFraction cs).2 ∧ (readFraction cs).1 = f.getD [] ∧
      ∀ ds ∈ f, ∀ c ∈ ds, c.isDigit = true := by
  unfold readFraction
  split
  · rename_i cs
    refine ⟨some (cs.takeWhile Char.isDigit), ?_, rfl, fun ds hd c hc => ?_⟩
    · simp only [Numeral.fractionText, List.cons_append, List.takeWhile_append_dropWhile]
    · obtain rfl := Option.some.inj hd
      exact isDigit_takeWhile cs c hc
  · exact ⟨none, rfl, rfl, fun _ hd => nomatch hd⟩

theorem readExponent_eq (cs : List Char) :
    ∃ e, cs = Numeral.exponentText e ++ (readExponent cs).2 ∧
      (readExponent cs).1 = (e.map Exponent.value).getD 0 := by
  unfold readExponent
  split
  · exact ⟨none, rfl, rfl⟩
  rename_i c cs
  split
  · rename_i hc
    obtain ⟨s, hs, hn⟩ := readSign_eq cs
    dsimp only
    split
    · exact ⟨none, rfl, rfl⟩
    · rename_i hd
      refine ⟨some ⟨c, s, (readSign cs).2.takeWhile Char.isDigit, hc, isDigit_takeWhile _,
        by simpa using hd⟩, ?_, ?_⟩
      · simp only [Numeral.exponentText, Option.map_some, Option.getD_some, Exponent.text,
          List.cons_append, List.append_assoc, List.takeWhile_append_dropWhile]
        rw [← hs]
      · simp only [hn, Option.map_some, Option.getD_some, Exponent.value, beq_iff_eq]
  · exact ⟨none, rfl, rfl⟩

theorem exists_numeral_of_read {cs rest : List Char} {l : Literal} (h : read cs = some (l, rest)) :
    ∃ n : Numeral, cs = n.text ++ rest ∧ n.value = l := by
  obtain ⟨s, hs, hneg⟩ := readSign_eq cs
  have hw := List.takeWhile_append_dropWhile (p := Char.isDigit) (l := (readSign cs).2)
  obtain ⟨f, hf, hfrac, hfd⟩ := readFraction_eq ((readSign cs).2.dropWhile Char.isDigit)
  obtain ⟨e, he, hexp⟩ :=
    readExponent_eq (readFraction ((readSign cs).2.dropWhile Char.isDigit)).2
  unfold read at h
  dsimp only at h
  split at h
  · cases h
  · rename_i hd
    simp only [Option.some.injEq, Prod.mk.injEq] at h
    obtain ⟨rfl, rfl⟩ := h
    rw [hfrac] at hd
    refine ⟨⟨s, (readSign cs).2.takeWhile Char.isDigit, f, e, isDigit_takeWhile _, hfd, ?_⟩, ?_, ?_⟩
    · simpa using hd
    · simp only [Numeral.text, List.append_assoc]
      rw [← he, ← hf, hw, ← hs]
    · simp only [Numeral.value, hneg, hfrac, hexp]

/-! ## Every numeral is read -/

/-- A text that no sign begins. -/
def Unsigned (cs : List Char) : Prop := ∀ c ∈ cs.head?, c ≠ '-' ∧ c ≠ '+'

theorem readSign_append (s : Option Bool) {cs : List Char} (h : Unsigned cs) :
    readSign (signText s ++ cs) = (s == some true, cs) := by
  rcases s with _ | _ | _
  · simp only [signText, List.nil_append]
    unfold readSign
    split
    · exact absurd rfl (h _ rfl).1
    · exact absurd rfl (h _ rfl).2
    · rfl
  · rfl
  · rfl

theorem unsigned_of_isDigit {c : Char} {cs : List Char} (h : c.isDigit = true) :
    Unsigned (c :: cs) := by
  intro d hd
  obtain rfl := Option.some.inj hd
  constructor <;> rintro rfl <;> simp [Char.isDigit] at h

theorem unsigned_digits {ds : List Char} (h : ∀ c ∈ ds, c.isDigit = true) (hn : ds ≠ [])
    (cs : List Char) : Unsigned (ds ++ cs) := by
  rcases ds with _ | ⟨d, ds⟩
  · exact absurd rfl hn
  · exact unsigned_of_isDigit (h d List.mem_cons_self)

theorem takeWhile_eq_nil {p : Char → Bool} {cs : List Char} (h : cs.dropWhile p = cs) :
    cs.takeWhile p = [] := by
  have := congrArg List.length (List.takeWhile_append_dropWhile (p := p) (l := cs))
  rw [h, List.length_append] at this
  exact List.eq_nil_of_length_eq_zero (by omega)

/-- An exponent is read with all digits that follow it. -/
theorem readExponent_text (e : Exponent) (tail : List Char) :
    readExponent (e.text ++ tail) =
      (let n : Int := digitsValue (e.digits ++ tail.takeWhile Char.isDigit)
       if e.sign = some true then -n else n, tail.dropWhile Char.isDigit) := by
  have hs : Unsigned (e.digits ++ tail) := unsigned_digits e.isDigit e.ne_nil tail
  have hd : (e.digits ++ tail.takeWhile Char.isDigit).isEmpty = false := by simp [e.ne_nil]
  simp only [Exponent.text, List.cons_append, List.append_assoc, readExponent, if_pos e.mark_eq,
    readSign_append _ hs, hd, Bool.false_eq_true, if_false, List.dropWhile_append_of_pos e.isDigit,
    List.takeWhile_append_of_pos e.isDigit, beq_iff_eq]

theorem readExponent_suffix (e : Option Exponent) (tail : List Char) :
    (readExponent (Numeral.exponentText e ++ tail)).2 <:+ tail := by
  rcases e with _ | e
  · obtain ⟨e, he, -⟩ := readExponent_eq tail
    exact ⟨_, he.symm⟩
  · simp only [Numeral.exponentText, Option.map_some, Option.getD_some, readExponent_text]
    exact List.dropWhile_suffix _

/-- If nothing beyond an exponent is read, it has the value that it writes. -/
theorem readExponent_value {e : Option Exponent} {tail : List Char}
    (h : (readExponent (Numeral.exponentText e ++ tail)).2 = tail) :
    (readExponent (Numeral.exponentText e ++ tail)).1 = (e.map Exponent.value).getD 0 := by
  rcases e with _ | e
  · obtain ⟨e, he, hv⟩ := readExponent_eq tail
    simp only [Numeral.exponentText, Option.map_none, Option.getD_none, List.nil_append] at h ⊢
    rw [hv]
    rcases e with _ | e
    · rfl
    · have := congrArg List.length he
      simp only [h, Numeral.exponentText, Option.map_some, Option.getD_some, Exponent.text,
        List.length_append, List.length_cons] at this
      omega
  · simp only [Numeral.exponentText, Option.map_some, Option.getD_some, readExponent_text] at h ⊢
    rw [takeWhile_eq_nil h, List.append_nil]
    rfl

theorem takeWhile_exponent (e : Exponent) (tail : List Char) :
    (e.text ++ tail).takeWhile Char.isDigit = [] := by
  have hm : e.mark.isDigit = false := by
    rcases e.mark_eq with h | h <;> rw [h] <;> decide
  simp [Exponent.text, hm]

theorem readFraction_exponent (e : Exponent) (tail : List Char) :
    readFraction (e.text ++ tail) = ([], e.text ++ tail) := by
  unfold readFraction
  split
  · rename_i h
    simp only [Exponent.text, List.cons_append, List.cons.injEq] at h
    rcases e.mark_eq with hm | hm <;> rw [hm] at h <;> exact absurd h.1 (by decide)
  · rfl

theorem dropWhile_exponent (e : Exponent) (tail : List Char) :
    (e.text ++ tail).dropWhile Char.isDigit = e.text ++ tail := by
  have := List.takeWhile_append_dropWhile (p := Char.isDigit) (l := e.text ++ tail)
  rwa [takeWhile_exponent, List.nil_append] at this

theorem readFraction_suffix (cs : List Char) : (readFraction cs).2 <:+ cs := by
  obtain ⟨f, hf, -⟩ := readFraction_eq cs
  exact ⟨_, hf.symm⟩

theorem readFraction_nil {cs : List Char} (h : (readFraction cs).2 = cs) :
    (readFraction cs).1 = [] := by
  have := length_readFraction cs
  rw [h] at this
  exact List.eq_nil_of_length_eq_zero (by omega)

theorem isDigit_dot : Char.isDigit '.' = false := by decide

/-- The digits about the point are read with those that follow them, if neither a point nor an
exponent does. -/
theorem readFraction_append {f : Option (List Char)} (hf : ∀ ds ∈ f, ∀ c ∈ ds, c.isDigit = true)
    (e : Option Exponent) (tail : List Char) {x : List Char}
    (hx : x = Numeral.fractionText f ++ (Numeral.exponentText e ++ tail)) :
    ∃ tail', tail' <:+ tail ∧
      (readFraction (x.dropWhile Char.isDigit)).2 = Numeral.exponentText e ++ tail' ∧
      f.getD [] <+: (readFraction (x.dropWhile Char.isDigit)).1 ∧
      (tail' = tail → x.takeWhile Char.isDigit = [] ∧
        (readFraction (x.dropWhile Char.isDigit)).1 = f.getD []) := by
  subst hx
  rcases f with _ | f <;> rcases e with _ | e <;>
    simp only [Numeral.fractionText, Numeral.exponentText, Option.map_none, Option.map_some,
      Option.getD_none, Option.getD_some, List.nil_append]
  · refine ⟨_, (readFraction_suffix _).trans (List.dropWhile_suffix _), rfl, List.nil_prefix,
      fun h => ?_⟩
    have hl := (readFraction_suffix (tail.dropWhile Char.isDigit)).length_le
    rw [h] at hl
    have hd : tail.dropWhile Char.isDigit = tail := (List.dropWhile_suffix _).eq_of_length_le hl
    exact ⟨takeWhile_eq_nil hd, readFraction_nil (h.trans hd.symm)⟩
  · rw [dropWhile_exponent, readFraction_exponent, takeWhile_exponent]
    exact ⟨tail, List.suffix_refl _, rfl, List.nil_prefix, fun _ => ⟨rfl, rfl⟩⟩
  · have hd := hf f rfl
    simp only [List.cons_append, List.dropWhile_cons, List.takeWhile_cons, isDigit_dot,
      Bool.false_eq_true, if_false, readFraction, List.takeWhile_append_of_pos hd,
      List.dropWhile_append_of_pos hd]
    refine ⟨_, List.dropWhile_suffix _, rfl, List.prefix_append _ _, fun h => ⟨trivial, ?_⟩⟩
    rw [takeWhile_eq_nil h, List.append_nil]
  · have hd := hf f rfl
    simp only [List.cons_append, List.dropWhile_cons, List.takeWhile_cons, isDigit_dot,
      Bool.false_eq_true, if_false, readFraction, List.takeWhile_append_of_pos hd,
      List.dropWhile_append_of_pos hd, takeWhile_exponent, List.append_nil]
    exact ⟨tail, List.suffix_refl _, dropWhile_exponent e tail, List.prefix_refl _,
      fun _ => ⟨trivial, trivial⟩⟩

theorem unsigned_body (n : Numeral) (tail : List Char) :
    Unsigned (n.whole ++ (Numeral.fractionText n.fraction ++
      (Numeral.exponentText n.exponent ++ tail))) := by
  rcases hw : n.whole with _ | ⟨c, whole⟩
  · rcases hf : n.fraction with _ | f
    · exact absurd (by simp [hw, hf]) n.ne_nil
    · intro c hc
      obtain rfl := Option.some.inj hc
      decide
  · exact unsigned_of_isDigit (n.isDigit_whole c (hw ▸ List.mem_cons_self))

/-- A text that begins with a numeral is read at least as far, and if no farther then as the number
that the numeral writes. -/
theorem read_append (n : Numeral) (tail : List Char) :
    ∃ l rest, read (n.text ++ tail) = some (l, rest) ∧ rest <:+ tail ∧
      (rest = tail → l = n.value) := by
  have hs := readSign_append n.sign (unsigned_body n tail)
  obtain ⟨tail', ht, he, hp, hn⟩ := readFraction_append n.isDigit_fraction n.exponent tail rfl
  have hr := readExponent_suffix n.exponent tail'
  simp only [Numeral.text, List.append_assoc]
  generalize Numeral.fractionText n.fraction ++ (Numeral.exponentText n.exponent ++ tail) = x at *
  have hd : ((n.whole ++ x.takeWhile Char.isDigit).isEmpty &&
      (readFraction (x.dropWhile Char.isDigit)).1.isEmpty) = false := by
    rw [Bool.and_eq_false_iff, List.isEmpty_eq_false_iff, List.isEmpty_eq_false_iff]
    rcases hw : n.whole with _ | ⟨c, whole⟩
    · refine .inr fun h => n.ne_nil ?_
      rw [hw, List.nil_append]
      exact List.prefix_nil.mp (h ▸ hp)
    · exact .inl (List.cons_ne_nil _ _)
  unfold read
  simp only [hs, List.takeWhile_append_of_pos n.isDigit_whole,
    List.dropWhile_append_of_pos n.isDigit_whole, hd, he, Bool.false_eq_true, if_false]
  refine ⟨_, _, rfl, hr.trans ht, fun h => ?_⟩
  have htail : tail' = tail := ht.eq_of_length_le (h ▸ hr.length_le)
  obtain ⟨hw, hf⟩ := hn htail
  rw [htail] at h ⊢
  rw [hw, hf, readExponent_value h, List.append_nil]
  rfl

/-- A numeral is one literal from end to end. -/
theorem ofChars?_text (n : Numeral) : ofChars? n.text = some n.value := by
  obtain ⟨l, rest, hr, hs, hv⟩ := read_append n []
  obtain rfl := List.suffix_nil.mp hs
  rw [List.append_nil] at hr
  rw [ofChars?, hr, hv rfl]

/-- `Literal.read` reads the longest numeral. -/
theorem read_eq_some_iff {cs rest : List Char} {l : Literal} :
    read cs = some (l, rest) ↔ ∃ n : Numeral, n.Longest cs rest ∧ n.value = l := by
  constructor
  · intro h
    obtain ⟨n, hn, rfl⟩ := exists_numeral_of_read h
    refine ⟨n, ⟨hn, fun m tail hm => ?_⟩, rfl⟩
    obtain ⟨l, rest', hr, hs, -⟩ := read_append m tail
    rw [← hm, h] at hr
    obtain ⟨-, rfl⟩ := Prod.mk.inj (Option.some.inj hr)
    exact hs.length_le
  · intro h
    obtain ⟨n, ⟨rfl, hl⟩, rfl⟩ := h
    obtain ⟨l, rest', hr, hs, hv⟩ := read_append n rest
    obtain ⟨m, hm, -⟩ := exists_numeral_of_read hr
    have := hs.eq_of_length_le (hl m rest' hm)
    rw [hr, hv this, this]

/-- `Literal.read` reads nothing only if no numeral is there. -/
theorem read_eq_none_iff {cs : List Char} :
    read cs = none ↔ ∀ (n : Numeral) (tail : List Char), cs ≠ n.text ++ tail := by
  constructor
  · rintro h n tail rfl
    obtain ⟨l, rest, hr, -⟩ := read_append n tail
    rw [h] at hr
    cases hr
  · intro h
    rcases hr : read cs with _ | ⟨l, rest⟩
    · rfl
    · obtain ⟨n, hn, -⟩ := exists_numeral_of_read hr
      exact absurd hn (h n rest)

end Literal
end LaserCut
