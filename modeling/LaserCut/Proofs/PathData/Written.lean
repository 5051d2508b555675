import LaserCut.PathData.Outline
import LaserCut.Proofs.Outcome
import LaserCut.Proofs.PathData.Grammar
import LaserCut.Proofs.Text.Fields

/-!
# Reading written path data

What the reader makes of the written form of commands. The text of a number is a parameter
(`Legible`): it is a numeral for the numbers that have one, and for the others a word at which no
number is read.

* `Reads`: a reader takes what was written if it is good, and misses a number if it is not; readers
  in a row add up (`Reads.bind`);
* `reads_segment`, `reads_command`: the parameters of a command, and its letter;
* `parse_text`: written commands are read back if all their numbers have numerals;
* `parse_text_error`: and a number is missing if not;
* `curves_text`: what the path data draws.
-/

namespace LaserCut.PathData

/-- The numbers of a command's parameters. -/
def Segment.numbers {ν : Type} : Segment ν → List ν
  | .moveTo p => [p.x, p.y]
  | .lineTo p => [p.x, p.y]
  | .horizontal x => [x]
  | .vertical y => [y]
  | .cubic c₁ c₂ p => [c₁.x, c₁.y, c₂.x, c₂.y, p.x, p.y]
  | .smoothCubic c₂ p => [c₂.x, c₂.y, p.x, p.y]
  | .quadratic c p => [c.x, c.y, p.x, p.y]
  | .smoothQuadratic p => [p.x, p.y]
  | .arc radii rotation _ _ p => [radii.x, radii.y, rotation, p.x, p.y]
  | .close => []

theorem Segment.map_congr {ν μ : Type} {f g : ν → μ} {s : Segment ν}
    (h : ∀ x ∈ s.numbers, f x = g x) : s.map f = s.map g := by
  cases s <;> simp_all [Segment.map, Segment.numbers, Point.map]

/-- Commands are written by the texts of their own numbers only. -/
theorem text_congr {ν : Type} {f g : ν → String} {cs : List (Command ν)}
    (h : ∀ c ∈ cs, ∀ x ∈ c.segment.numbers, f x = g x) :
    PathData.text f cs = PathData.text g cs := by
  have arguments {s : Segment ν} (h : ∀ x ∈ s.numbers, f x = g x) :
      Command.argumentsText f s = Command.argumentsText g s := by
    cases s <;> simp_all [Command.argumentsText, Segment.numbers, Command.pointText]
  refine congrArg _ (List.map_congr_left fun c hc => ?_)
  rw [Command.text, Command.text, arguments (h c hc)]

/-- Texts of numbers that the reader understands. -/
structure Legible {ν : Type} (write : ν → String) (finite : ν → Prop) (literal : ν → Literal) :
    Prop where
  numeral : ∀ x, finite x → ∃ n : Numeral, n.text = (write x).toList ∧ n.value = literal x
  /-- A text that is no numeral begins neither with a number nor with separators. -/
  word : ∀ x, ¬ finite x → ∀ tail, Literal.read ((write x).toList ++ tail) = none ∧
    skipSeparators ((write x).toList ++ tail) = (write x).toList ++ tail

/-- A text that ends a number: nothing, a blank or a comma. -/
def EndsNumber (cs : List Char) : Prop := ∀ c ∈ cs.head?, Text.isListSeparator c = true

theorem endsNumber_nil : EndsNumber [] := fun _ h => nomatch h

theorem endsNumber_cons {c : Char} (h : Text.isListSeparator c = true) (cs : List Char) :
    EndsNumber (c :: cs) :=
  fun _ hc => Option.some.inj hc ▸ h

/-! ## Numerals -/

theorem isListSeparator_of_isLiteralChar {c : Char} (h : isLiteralChar c = true) :
    Text.isListSeparator c = false := by
  simp only [isLiteralChar, Char.isAlphanum, Bool.or_eq_true, beq_iff_eq] at h
  rcases h with (((letter | digit) | rfl) | rfl) | rfl
  · exact Text.isListSeparator_of_isAlpha letter
  · exact Text.isListSeparator_of_isDigit digit
  all_goals rfl

/-- No numeral has a blank or a comma in it. -/
theorem not_mem_text (n : Numeral) {c : Char} (hc : Text.isListSeparator c = true) :
    c ∉ n.text := fun mem =>
  Bool.false_ne_true
    ((isListSeparator_of_isLiteralChar (isLiteralChar_of_mem_text mem)).symm.trans hc)

/-- A numeral is read up to its end where a blank or a comma or nothing follows it. -/
theorem read_text_append (n : Numeral) {tail : List Char} (ht : EndsNumber tail) :
    Literal.read (n.text ++ tail) = some (n.value, tail) := by
  obtain ⟨l, rest, hr, hs, hv⟩ := Literal.read_append n tail
  obtain ⟨m, hm, -⟩ := Literal.exists_numeral_of_read hr
  obtain ⟨taken, rfl⟩ := hs
  cases taken with
  | nil => rw [hr, hv (List.nil_append rest).symm, List.nil_append]
  | cons c taken =>
    -- more was read than the numeral: then the character after it is part of another
    refine absurd ?_ (not_mem_text m (ht c rfl))
    rw [← List.append_assoc] at hm
    rw [← List.append_cancel_right hm]
    exact List.mem_append_right _ List.mem_cons_self

/-! ## Readers -/

/-- At the text `cs` a reader takes `a` and leaves `rest` if that is good, and misses a number if
not. -/
structure Reads {α : Type} (r : Reader α) (good : Prop) (cs : List Char) (a : α)
    (rest : List Char) : Prop where
  read : good → r cs = .ok (a, rest)
  refused : ¬ good → ∃ command offset, r cs = .error (.expectedNumber command offset)

namespace Reads

variable {α β : Type} {r : Reader α} {f : α → Reader β} {p q : Prop} {cs mid rest : List Char}
  {a : α} {b : β}

theorem pure (a : α) (cs : List Char) : Reads (Pure.pure a) True cs a cs :=
  ⟨fun _ => rfl, fun h => absurd trivial h⟩

theorem bind (hr : Reads r p cs a mid) (hf : Reads (f a) q mid b rest) :
    Reads (r >>= f) (p ∧ q) cs b rest := by
  constructor
  · intro h
    show (r cs >>= fun s => f s.1 s.2) = _
    rw [hr.read h.1]
    exact hf.read h.2
  · intro h
    by_cases hp : p
    · obtain ⟨command, offset, he⟩ := hf.refused fun hq => h ⟨hp, hq⟩
      refine ⟨command, offset, ?_⟩
      show (r cs >>= fun s => f s.1 s.2) = _
      rw [hr.read hp]
      exact he
    · obtain ⟨command, offset, he⟩ := hr.refused hp
      refine ⟨command, offset, ?_⟩
      show (r cs >>= fun s => f s.1 s.2) = _
      rw [he]
      rfl

theorem congr (h : Reads r p cs a rest) (hpq : p ↔ q) : Reads r q cs a rest :=
  propext hpq ▸ h

end Reads

section Written

variable {ν : Type} {write : ν → String} {finite : ν → Prop} {literal : ν → Literal}
  (legible : Legible write finite literal) (source : List Char) (command : Char)

include legible

/-- A written number, after a separator. -/
theorem reads_number (x : ν) {sep : Char} (hsep : isSeparator sep = true) {tail : List Char}
    (ht : EndsNumber tail) :
    Reads (number source command) (finite x) (sep :: ((write x).toList ++ tail)) (literal x)
      tail := by
  have skip : ∀ cs, skipSeparators (sep :: cs) = skipSeparators cs := fun cs => by
    simp [skipSeparators, hsep]
  constructor
  · intro good
    obtain ⟨n, text, value⟩ := legible.numeral x good
    obtain ⟨c, cs, he, hc⟩ : ∃ c cs, n.text ++ tail = c :: cs ∧ startsNumber c = true :=
      startsNumber_of_text rfl
    have stays : skipSeparators (n.text ++ tail) = n.text ++ tail :=
      he ▸ skipSeparators_cons (isSeparator_of_startsNumber hc) cs
    unfold number
    dsimp only
    rw [skip, ← text, stays, read_text_append n ht, value]
  · intro bad
    obtain ⟨missing, stays⟩ := legible.word x bad tail
    refine ⟨command, Text.offset source ((write x).toList ++ tail), ?_⟩
    unfold number
    dsimp only
    rw [skip, stays, missing]

/-- A written point, after a blank. -/
theorem reads_point (p : Point ν) {tail : List Char} (ht : EndsNumber tail) :
    Reads (point source command) (finite p.x ∧ finite p.y)
      (' ' :: ((Command.pointText write p).toList ++ tail)) (p.map literal) tail := by
  have text : (Command.pointText write p).toList ++ tail =
      (write p.x).toList ++ ',' :: ((write p.y).toList ++ tail) := by
    simp [Command.pointText]
  rw [text]
  refine Reads.congr (p := finite p.x ∧ finite p.y ∧ True) ?_ (by rw [and_true])
  exact .bind (reads_number legible source command p.x rfl (endsNumber_cons rfl _)) <|
    .bind (reads_number legible source command p.y rfl ht) <| .pure (p.map literal) tail

omit legible in
/-- A written flag, after a separator. -/
theorem reads_flag (value : Bool) {sep : Char} (hsep : isSeparator sep = true)
    (tail : List Char) :
    Reads (flag source) True (sep :: ((Command.flagText value).toList ++ tail)) value tail := by
  refine ⟨fun _ => ?_, fun h => absurd trivial h⟩
  have skip : skipSeparators (sep :: ((Command.flagText value).toList ++ tail)) =
      (Command.flagText value).toList ++ tail := by
    rw [show ∀ cs, skipSeparators (sep :: cs) = skipSeparators cs by simp [skipSeparators, hsep]]
    cases value <;> exact skipSeparators_cons rfl tail
  unfold flag
  rw [skip]
  cases value <;> rfl

/-! ## Commands -/

/-- Texts with a blank before each. -/
def spaced (texts : List String) : List Char := texts.flatMap fun t => ' ' :: t.toList

omit legible in
theorem toList_intercalate_blank (t : String) (ts : List String) :
    (" ".intercalate (t :: ts)).toList = t.toList ++ spaced ts := by
  induction ts generalizing t with
  | nil => simp [spaced]
  | cons u ts ih =>
    rw [String.intercalate_cons_cons, String.toList_append, String.toList_append, ih]
    simp [spaced]

omit legible in
theorem endsNumber_spaced_append (ts : List String) {tail : List Char} (ht : EndsNumber tail) :
    EndsNumber (spaced ts ++ tail) := by
  cases ts with
  | nil => exact ht
  | cons t ts => exact endsNumber_cons rfl _

/-- The written parameters of a command. -/
theorem reads_segment (s : Segment ν) {tail : List Char} (ht : EndsNumber tail) :
    Reads (segment source command s.verb) (∀ x ∈ s.numbers, finite x)
      (spaced (Command.argumentsText write s) ++ tail) (s.map literal) tail := by
  have blank : isSeparator ' ' = true := rfl
  have number (x : ν) {tail : List Char} (ht : EndsNumber tail) :=
    reads_number legible source command x blank ht
  have point (p : Point ν) {tail : List Char} (ht : EndsNumber tail) :=
    reads_point legible source command p ht
  have next {cs : List Char} : EndsNumber (' ' :: cs) := endsNumber_cons rfl cs
  cases s <;>
    simp only [segment, Segment.verb, Segment.numbers, Segment.map, Command.argumentsText, spaced,
      List.flatMap_cons, List.flatMap_nil, List.append_nil, List.append_assoc, List.cons_append,
      String.toList_append]
  case moveTo p => exact .congr (.bind (point p ht) (.pure _ _)) (by simp)
  case lineTo p => exact .congr (.bind (point p ht) (.pure _ _)) (by simp)
  case horizontal x => exact .congr (.bind (number x ht) (.pure _ _)) (by simp)
  case vertical y => exact .congr (.bind (number y ht) (.pure _ _)) (by simp)
  case cubic c₁ c₂ p =>
    exact .congr (.bind (point c₁ next) (.bind (point c₂ next) (.bind (point p ht) (.pure _ _))))
      (by simp [and_assoc])
  case smoothCubic c₂ p =>
    exact .congr (.bind (point c₂ next) (.bind (point p ht) (.pure _ _))) (by simp [and_assoc])
  case quadratic c p =>
    exact .congr (.bind (point c next) (.bind (point p ht) (.pure _ _))) (by simp [and_assoc])
  case smoothQuadratic p => exact .congr (.bind (point p ht) (.pure _ _)) (by simp)
  case arc radii rotation large sweep p =>
    have flags := reads_flag source
    exact .congr
      (.bind (point radii next) (.bind (number rotation next) (.bind (flags large blank _)
        (.bind (flags sweep rfl _) (.bind (point p ht) (.pure _ _))))))
      (by simp [and_assoc])
  case close => exact .congr (.pure _ _) (by simp)

/-- A written command after its letter; the first one is a move. -/
theorem reads_command {previous : Option Letter} (c : Command ν)
    (first : previous = none → c.segment.verb = .moveTo) {tail : List Char}
    (ht : EndsNumber tail) :
    Reads (PathData.command source previous c.letter.toChar) (∀ x ∈ c.segment.numbers, finite x)
      (spaced (Command.argumentsText write c.segment) ++ tail) (c.map literal) tail := by
  have known : PathData.command source previous c.letter.toChar = arguments source c.letter := by
    funext cs
    unfold PathData.command
    rw [if_pos (isAlpha_toChar _), if_neg, Letter.ofChar?_toChar]
    simp only [Bool.and_eq_true, Option.isNone_iff_eq_none, bne_iff_ne, ne_eq, not_and,
      Decidable.not_not]
    rintro ⟨hn, hM⟩
    exact (toChar_of_moveTo (l := c.letter) (first hn)).resolve_left hM
  rw [known]
  exact .congr (.bind (reads_segment legible source _ c.segment ht) (.pure _ _)) (by rw [and_true])

omit legible in
theorem toList_text (c : Command ν) :
    (c.text write).toList =
      c.letter.toChar :: spaced (Command.argumentsText write c.segment) := by
  rw [Command.text, toList_intercalate_blank]
  simp

/-! ## Path data -/

omit legible in
/-- One command and those after it. -/
theorem commands_eq_bind {previous : Option Letter} {ch : Char} {cs tail : List Char}
    (hs : skipSeparators cs = ch :: tail) :
    commands source previous cs = PathData.command source previous ch tail >>= fun s =>
      (commands source (some s.1.letter) s.2).map (s.1 :: ·) := by
  rw [commands]
  split
  · rename_i hn
    rw [hs] at hn
    cases hn
  · rename_i ch' tail' hs'
    obtain ⟨rfl, rfl⟩ := List.cons.inj (hs.symm.trans hs')
    split
    · rename_i e he
      rw [he]
      rfl
    · rename_i c rest hc
      show (commands source (some c.letter) rest).map (c :: ·) = _
      rw [hc]
      rfl

omit legible in
/-- Separators in front make no difference. -/
theorem commands_congr {previous : Option Letter} {cs ds : List Char}
    (h : skipSeparators cs = skipSeparators ds) :
    commands source previous cs = commands source previous ds := by
  rcases hd : skipSeparators ds with _ | ⟨ch, tail⟩
  · have nothing {es : List Char} (he : skipSeparators es = []) :
        commands source previous es = .ok [] := by
      rw [commands]
      split
      · rfl
      · rename_i hn
        rw [he] at hn
        cases hn
    rw [nothing (h.trans hd), nothing hd]
  · rw [commands_eq_bind source (h.trans hd), commands_eq_bind source hd]

/-- Written commands with a blank before each, after the command with the letter `previous`; the
first one of all is a move. -/
theorem commands_spaced (cs : List (Command ν)) : ∀ (previous : Option Letter),
    (previous = none → ∀ c ∈ cs.head?, c.segment.verb = .moveTo) →
    ((∀ c ∈ cs, ∀ x ∈ c.segment.numbers, finite x) →
      commands source previous (spaced (cs.map (Command.text write))) =
        .ok (cs.map (Command.map literal))) ∧
    (¬ (∀ c ∈ cs, ∀ x ∈ c.segment.numbers, finite x) →
      ∃ command offset, commands source previous (spaced (cs.map (Command.text write))) =
        .error (.expectedNumber command offset)) := by
  induction cs with
  | nil =>
    intro previous _
    refine ⟨fun _ => ?_, fun h => absurd (List.forall_mem_nil _) h⟩
    rw [commands]
    rfl
  | cons c cs ih =>
    intro previous first
    have text : skipSeparators (spaced ((c :: cs).map (Command.text write))) =
        c.letter.toChar :: (spaced (Command.argumentsText write c.segment) ++
          spaced (cs.map (Command.text write))) := by
      rw [List.map_cons, spaced, List.flatMap_cons, toList_text]
      exact skipSeparators_cons (isSeparator_toChar c.letter) _
    have ends : EndsNumber (spaced (cs.map (Command.text write))) := by
      have := endsNumber_spaced_append (cs.map (Command.text write)) endsNumber_nil
      rwa [List.append_nil] at this
    have head := reads_command legible source c (fun hp => first hp c rfl) ends
    obtain ⟨good, bad⟩ := ih (some (c.map literal).letter) fun h => nomatch h
    rw [commands_eq_bind source text, List.forall_mem_cons]
    constructor
    · rintro ⟨hc, hcs⟩
      rw [head.read hc]
      show (commands source _ _).map _ = _
      rw [good hcs]
      rfl
    · intro h
      by_cases hc : ∀ x ∈ c.segment.numbers, finite x
      · obtain ⟨command, offset, he⟩ := bad fun hcs => h ⟨hc, hcs⟩
        refine ⟨command, offset, ?_⟩
        rw [head.read hc]
        show (commands source _ _).map _ = _
        rw [he]
        rfl
      · obtain ⟨command, offset, he⟩ := head.refused hc
        refine ⟨command, offset, ?_⟩
        rw [he]
        rfl

omit legible in
theorem commands_text (previous : Option Letter) (cs : List (Command ν)) :
    commands source previous (PathData.text write cs).toList =
      commands source previous (spaced (cs.map (Command.text write))) := by
  refine commands_congr source ?_
  cases cs with
  | nil => rfl
  | cons c cs =>
    rw [PathData.text, List.map_cons, toList_intercalate_blank]
    rfl

variable {cs : List (Command ν)} (first : ∀ c ∈ cs.head?, c.segment.verb = .moveTo)

include first

/-- Written commands are read back if all their numbers have numerals. -/
theorem parse_text (good : ∀ c ∈ cs, ∀ x ∈ c.segment.numbers, finite x) :
    parse (PathData.text write cs) = .ok (cs.map (Command.map literal)) := by
  rw [parse, commands_text]
  exact (commands_spaced legible _ cs none fun _ => first).1 good

/-- A number without a numeral is missed. -/
theorem parse_text_error (bad : ¬ ∀ c ∈ cs, ∀ x ∈ c.segment.numbers, finite x) :
    ∃ command offset, parse (PathData.text write cs) = .error (.expectedNumber command offset) := by
  rw [parse, commands_text]
  exact (commands_spaced legible _ cs none fun _ => first).2 bad

/-- Written commands draw what the commands with the numbers that are read draw. -/
theorem curves_text {α : Type} [Scalar α] {f : ν → α}
    (good : ∀ c ∈ cs, ∀ x ∈ c.segment.numbers, finite x)
    (value : ∀ c ∈ cs, ∀ x ∈ c.segment.numbers, Scalar.ofLiteral (literal x) = f x) :
    curves (PathData.text write cs) = .ok (draw (cs.map (Command.map f))) := by
  have numbers : ∀ c ∈ cs, (c.map literal).map Scalar.ofLiteral = c.map f := fun c hc => by
    have segment : (c.segment.map literal).map Scalar.ofLiteral = c.segment.map f := by
      rw [← Segment.map_congr (value c hc)]
      cases c.segment <;> rfl
    exact congrArg (Command.mk c.relative) segment
  rw [curves, parse_text legible first good]
  show Except.ok (draw ((cs.map (Command.map literal)).map (Command.map Scalar.ofLiteral))) = _
  rw [List.map_map]
  exact congrArg (Except.ok ∘ draw) (List.map_congr_left numbers)

end Written
end LaserCut.PathData
