import LaserCut.PathData.Reader
import LaserCut.Proofs.Outcome
import LaserCut.Proofs.PathData.Numeral

/-!
# The grammar of path data

Which commands a text spells, stated without a reader, as relations between commands, a text and
what is left of it:

* `Argument.Token`: a number is the longest numeral at its place, a flag one digit;
* `SpellsArguments`: parameters in order, with separators before each;
* `SpellsCommand`: a letter and its parameters, or parameters alone, which repeat the command before
  them;
* `Spells`: the commands of a whole text.

`parse` reads exactly the commands that a text spells (`parse_eq_ok_iff`).
-/

namespace LaserCut.PathData

/-- Runs of ASCII white space and commas. -/
def Separators (cs : List Char) : Prop := ∀ c ∈ cs, c ∈ [' ', '\t', '\n', '\x0c', '\r', ',']

/-- A parameter of a command. -/
inductive Argument
  | number (l : Literal)
  | flag (value : Bool)

/-- The parameter stands at the beginning of a text, and `rest` follows it. -/
inductive Argument.Token : Argument → List Char → List Char → Prop
  | number {n : Numeral} {cs rest : List Char} : n.Longest cs rest → Token (.number n.value) cs rest
  | zero {rest : List Char} : Token (.flag false) ('0' :: rest) rest
  | one {rest : List Char} : Token (.flag true) ('1' :: rest) rest

/-- Parameters in order, with separators before each. -/
inductive SpellsArguments : List Argument → List Char → List Char → Prop
  | nil {cs : List Char} : SpellsArguments [] cs cs
  | cons {a : Argument} {as : List Argument} {seps cs mid rest : List Char} :
    Separators seps → a.Token cs mid → SpellsArguments as mid rest →
      SpellsArguments (a :: as) (seps ++ cs) rest

def pointArguments (p : Point Literal) : List Argument := [.number p.x, .number p.y]

/-- The parameters of a command in the order in which they are written. -/
def Segment.arguments : Segment Literal → List Argument
  | .moveTo p => pointArguments p
  | .lineTo p => pointArguments p
  | .horizontal x => [.number x]
  | .vertical y => [.number y]
  | .cubic c₁ c₂ p => pointArguments c₁ ++ (pointArguments c₂ ++ pointArguments p)
  | .smoothCubic c₂ p => pointArguments c₂ ++ pointArguments p
  | .quadratic c p => pointArguments c ++ pointArguments p
  | .smoothQuadratic p => pointArguments p
  | .arc radii rotation large sweep p =>
    pointArguments radii ++ ([.number rotation] ++ ([.flag large] ++ ([.flag sweep] ++
      pointArguments p)))
  | .close => []

/-- What parameters without a letter mean after a command: the same command, but a line after a
move. Nothing is repeated after a closing command. -/
inductive Repeats : Letter → Letter → Prop
  | moveTo {relative : Bool} : Repeats ⟨.moveTo, relative⟩ ⟨.lineTo, relative⟩
  | same {l : Letter} : l.verb ≠ .moveTo → l.verb ≠ .close → Repeats l l

/-- A command at the beginning of a text, after the command with the letter `previous`. The first
command is a move. -/
inductive SpellsCommand (previous : Option Letter) (c : Command Literal) :
    List Char → List Char → Prop
  | letter {seps cs rest : List Char} : Separators seps →
    (previous = none → c.segment.verb = .moveTo) → SpellsArguments c.segment.arguments cs rest →
      SpellsCommand previous c (seps ++ c.letter.toChar :: cs) rest
  | repeated {l : Letter} {cs rest : List Char} : previous = some l → Repeats l c.letter →
    SpellsArguments c.segment.arguments cs rest → SpellsCommand previous c cs rest

/-- The commands of a text up to its end, after the command with the letter `previous`. -/
inductive Spells : Option Letter → List (Command Literal) → List Char → Prop
  | nil {previous : Option Letter} {cs : List Char} : Separators cs → Spells previous [] cs
  | cons {previous : Option Letter} {c : Command Literal} {commands : List (Command Literal)}
    {cs mid : List Char} : SpellsCommand previous c cs mid → Spells (some c.letter) commands mid →
      Spells previous (c :: commands) cs

/-! ## Separators -/

theorem isSeparator_iff {c : Char} :
    isSeparator c = true ↔ c ∈ [' ', '\t', '\n', '\x0c', '\r', ','] := by
  simp only [isSeparator, Bool.or_eq_true, beq_iff_eq, List.mem_cons, List.not_mem_nil, or_false,
    or_assoc]

theorem skipSeparators_append {seps : List Char} (h : Separators seps) (cs : List Char) :
    skipSeparators (seps ++ cs) = skipSeparators cs :=
  List.dropWhile_append_of_pos fun c hc => isSeparator_iff.mpr (h c hc)

theorem exists_separators (cs : List Char) :
    ∃ seps, Separators seps ∧ cs = seps ++ skipSeparators cs :=
  ⟨cs.takeWhile isSeparator,
    fun c hc => isSeparator_iff.mp (List.all_eq_true.mp List.all_takeWhile c hc),
    List.takeWhile_append_dropWhile.symm⟩

theorem skipSeparators_eq_nil_iff {cs : List Char} : skipSeparators cs = [] ↔ Separators cs := by
  constructor
  · intro h
    obtain ⟨seps, hs, he⟩ := exists_separators cs
    rw [h, List.append_nil] at he
    exact he ▸ hs
  · intro h
    have := skipSeparators_append h []
    rwa [List.append_nil] at this

theorem skipSeparators_cons {c : Char} (h : isSeparator c = false) (cs : List Char) :
    skipSeparators (c :: cs) = c :: cs := by
  simp [skipSeparators, h]

theorem isSeparator_of_startsNumber {c : Char} (h : startsNumber c = true) :
    isSeparator c = false := by
  rw [Bool.eq_false_iff]
  intro hs
  have hc := isSeparator_iff.mp hs
  simp only [List.mem_cons, List.not_mem_nil, or_false] at hc
  rcases hc with rfl | rfl | rfl | rfl | rfl | rfl <;> revert h <;> decide

/-! ## Tokens -/

/-- A numeral begins with a character that a number can begin with. -/
theorem startsNumber_of_text {n : Numeral} {cs rest : List Char} (h : cs = n.text ++ rest) :
    ∃ c tail, cs = c :: tail ∧ startsNumber c = true := by
  subst h
  have hd : ∀ c, c.isDigit = true → startsNumber c = true := fun c hc => by simp [startsNumber, hc]
  rcases hs : n.sign with _ | _ | _
  · rcases hw : n.whole with _ | ⟨c, whole⟩
    · rcases hf : n.fraction with _ | f
      · exact absurd (by simp [hw, hf]) n.ne_nil
      · exact ⟨'.', _, by simp [Numeral.text, hs, hw, hf, signText, Numeral.fractionText]; rfl, rfl⟩
    · exact ⟨c, _, by simp [Numeral.text, hs, hw, signText]; rfl,
        hd c (n.isDigit_whole c (hw ▸ List.mem_cons_self))⟩
  · exact ⟨'+', _, by simp [Numeral.text, hs, signText]; rfl, rfl⟩
  · exact ⟨'-', _, by simp [Numeral.text, hs, signText]; rfl, rfl⟩

theorem startsNumber_of_token {a : Argument} {cs rest : List Char} (h : a.Token cs rest) :
    ∃ c tail, cs = c :: tail ∧ startsNumber c = true := by
  cases h with
  | number h => exact startsNumber_of_text h.eq_append
  | zero => exact ⟨'0', rest, rfl, rfl⟩
  | one => exact ⟨'1', rest, rfl, rfl⟩

theorem skipSeparators_of_token {a : Argument} {cs rest : List Char} (h : a.Token cs rest) :
    skipSeparators cs = cs := by
  obtain ⟨c, tail, rfl, hc⟩ := startsNumber_of_token h
  exact skipSeparators_cons (isSeparator_of_startsNumber hc) tail

theorem spellsArguments_append_iff {as bs : List Argument} {cs rest : List Char} :
    SpellsArguments (as ++ bs) cs rest ↔
      ∃ mid, SpellsArguments as cs mid ∧ SpellsArguments bs mid rest := by
  constructor
  · intro h
    induction as generalizing cs with
    | nil => exact ⟨cs, .nil, h⟩
    | cons a as ih =>
      cases h with
      | cons hs ht hr =>
        obtain ⟨mid, h₁, h₂⟩ := ih hr
        exact ⟨mid, .cons hs ht h₁, h₂⟩
  · intro h
    obtain ⟨mid, h₁, h₂⟩ := h
    induction h₁ with
    | nil => exact h₂
    | cons hs ht _ ih => exact .cons hs ht (ih h₂)

theorem spellsArguments_nil_iff {cs rest : List Char} :
    SpellsArguments [] cs rest ↔ cs = rest :=
  ⟨fun h => by cases h; rfl, fun h => h ▸ .nil⟩

theorem spellsArguments_singleton_iff {a : Argument} {cs rest : List Char} :
    SpellsArguments [a] cs rest ↔ a.Token (skipSeparators cs) rest := by
  constructor
  · rintro (_ | ⟨hs, ht, hr⟩)
    rw [skipSeparators_append hs, skipSeparators_of_token ht]
    rwa [← spellsArguments_nil_iff.mp hr]
  · intro h
    obtain ⟨seps, hs, he⟩ := exists_separators cs
    rw [he]
    exact .cons hs h .nil

/-! ## Readers -/

section Readers

variable {source : List Char}

theorem bind_eq_ok_iff {α β : Type} {r : Reader α} {f : α → Reader β} {cs rest : List Char}
    {b : β} :
    (r >>= f) cs = .ok (b, rest) ↔ ∃ a mid, r cs = .ok (a, mid) ∧ f a mid = .ok (b, rest) := by
  show (r cs >>= fun p => f p.1 p.2) = .ok (b, rest) ↔ _
  rcases r cs with e | ⟨a, mid⟩
  · exact ⟨fun h => (nomatch h), fun ⟨_, _, h, _⟩ => (nomatch h)⟩
  · refine ⟨fun h => ⟨a, mid, rfl, h⟩, ?_⟩
    rintro ⟨_, _, h, hf⟩
    obtain ⟨rfl, rfl⟩ := Prod.mk.inj (Except.ok.inj h)
    exact hf

theorem pure_eq_ok_iff {α : Type} {a b : α} {cs rest : List Char} :
    (pure a : Reader α) cs = .ok (b, rest) ↔ a = b ∧ cs = rest := by
  show (Except.ok (a, cs) : Except PathError _) = .ok (b, rest) ↔ _
  simp

theorem number_eq_ok_iff {command : Char} {cs rest : List Char} {l : Literal} :
    number source command cs = .ok (l, rest) ↔ SpellsArguments [.number l] cs rest := by
  rw [spellsArguments_singleton_iff]
  unfold number
  dsimp only
  split
  · rename_i l' rest' hr
    obtain ⟨n, hn, hv⟩ := Literal.read_eq_some_iff.mp hr
    constructor
    · intro h
      obtain ⟨rfl, rfl⟩ := Prod.mk.inj (Except.ok.inj h)
      exact hv ▸ .number hn
    · rintro ⟨hm⟩
      rw [Literal.read_eq_some_iff.mpr ⟨_, hm, rfl⟩] at hr
      exact congrArg Except.ok (Option.some.inj hr).symm
  · rename_i hr
    refine ⟨fun h => (nomatch h), ?_⟩
    rintro ⟨hm⟩
    rw [Literal.read_eq_some_iff.mpr ⟨_, hm, rfl⟩] at hr
    cases hr

theorem flag_eq_ok_iff {cs rest : List Char} {value : Bool} :
    flag source cs = .ok (value, rest) ↔ SpellsArguments [.flag value] cs rest := by
  rw [spellsArguments_singleton_iff]
  unfold flag
  dsimp only
  split
  · rename_i h
    rw [h]
    constructor
    · intro h
      obtain ⟨rfl, rfl⟩ := Prod.mk.inj (Except.ok.inj h)
      exact .zero
    · rintro ⟨⟩; rfl
  · rename_i h
    rw [h]
    constructor
    · intro h
      obtain ⟨rfl, rfl⟩ := Prod.mk.inj (Except.ok.inj h)
      exact .one
    · rintro ⟨⟩; rfl
  · rename_i h₀ h₁
    refine ⟨fun h => (nomatch h), fun h => ?_⟩
    generalize skipSeparators cs = ds at h h₀ h₁
    cases h with
    | zero => exact absurd rfl (h₀ rest)
    | one => exact absurd rfl (h₁ rest)

theorem point_eq_ok_iff {command : Char} {cs rest : List Char} {p : Point Literal} :
    point source command cs = .ok (p, rest) ↔ SpellsArguments (pointArguments p) cs rest := by
  obtain ⟨x, y⟩ := p
  rw [pointArguments, show [Argument.number x, .number y] = [.number x] ++ [.number y] from rfl,
    spellsArguments_append_iff]
  simp only [point, bind_eq_ok_iff, number_eq_ok_iff, pure_eq_ok_iff, Point.mk.injEq]
  constructor
  · intro h
    obtain ⟨_, mid, hx, _, _, hy, ⟨rfl, rfl⟩, rfl⟩ := h
    exact ⟨mid, hx, hy⟩
  · intro h
    obtain ⟨mid, hx, hy⟩ := h
    exact ⟨x, mid, hx, y, rest, hy, ⟨rfl, rfl⟩, rfl⟩

theorem verb_eq_of_segment {command : Char} {verb : Verb} {cs rest : List Char}
    {s : Segment Literal} (h : segment source command verb cs = .ok (s, rest)) : s.verb = verb := by
  cases verb <;> simp only [segment, bind_eq_ok_iff, pure_eq_ok_iff] at h <;> grind [Segment.verb]

theorem segment_verb_eq_ok_iff {command : Char} {cs rest : List Char} {s : Segment Literal} :
    segment source command s.verb cs = .ok (s, rest) ↔ SpellsArguments s.arguments cs rest := by
  cases s <;>
    simp only [segment, Segment.verb, Segment.arguments, bind_eq_ok_iff, pure_eq_ok_iff,
      number_eq_ok_iff, flag_eq_ok_iff, point_eq_ok_iff, spellsArguments_append_iff,
      spellsArguments_nil_iff] <;> grind

theorem arguments_eq_ok_iff {l : Letter} {cs rest : List Char} {c : Command Literal} :
    arguments source l cs = .ok (c, rest) ↔
      c.letter = l ∧ SpellsArguments c.segment.arguments cs rest := by
  simp only [arguments, bind_eq_ok_iff, pure_eq_ok_iff]
  constructor
  · intro h
    obtain ⟨s, mid, hs, rfl, rfl⟩ := h
    have hv := verb_eq_of_segment hs
    rw [← hv, segment_verb_eq_ok_iff] at hs
    exact ⟨by simp [Command.letter, hv], hs⟩
  · intro h
    obtain ⟨rfl, h⟩ := h
    exact ⟨c.segment, rest, segment_verb_eq_ok_iff.mpr h, rfl, rfl⟩

end Readers

/-! ## Letters -/

theorem capital_of_ofCapital? {c : Char} {v : Verb} (h : Verb.ofCapital? c = some v) :
    v.capital = c := by
  unfold Verb.ofCapital? at h
  split at h <;> first | (cases h; rfl) | cases h

theorem toUpper_of_not_isLower {c : Char} (h : c.isLower = false) : c.toUpper = c := by
  have h : ('a'.val ≤ c.val && c.val ≤ 'z'.val) = false := h
  rw [Bool.and_eq_false_iff, decide_eq_false_iff_not, decide_eq_false_iff_not] at h
  unfold Char.toUpper
  exact dif_neg fun lower => h.elim (absurd lower.1) (absurd lower.2)

theorem toLower_toUpper_ofNat : ∀ n < 123, 97 ≤ n →
    (Char.ofNat n).toUpper.toLower = Char.ofNat n := by decide

theorem toLower_toUpper {c : Char} (h : c.isLower = true) : c.toUpper.toLower = c := by
  have h : ('a'.val ≤ c.val && c.val ≤ 'z'.val) = true := h
  simp only [Bool.and_eq_true, decide_eq_true_eq, UInt32.le_iff_toNat_le] at h
  have := toLower_toUpper_ofNat c.toNat (Nat.lt_succ_of_le h.2) h.1
  rwa [Char.ofNat_toNat] at this

theorem toChar_of_ofChar? {c : Char} {l : Letter} (h : Letter.ofChar? c = some l) :
    l.toChar = c := by
  obtain ⟨v, hv, rfl⟩ := Option.map_eq_some_iff.mp h
  have hc := capital_of_ofCapital? hv
  rcases hl : c.isLower <;> simp only [Letter.toChar, hc, if_true, Bool.false_eq_true, if_false]
  · exact toUpper_of_not_isLower hl
  · exact toLower_toUpper hl

theorem verb_eq_moveTo {c : Char} {l : Letter} (h : Letter.ofChar? c = some l)
    (hc : c = 'M' ∨ c = 'm') : l.verb = .moveTo := by
  rcases hc with rfl | rfl <;> cases h <;> rfl

theorem toChar_of_moveTo {l : Letter} (h : l.verb = .moveTo) : l.toChar = 'M' ∨ l.toChar = 'm' := by
  obtain ⟨verb, relative⟩ := l
  cases h
  cases relative
  · exact .inl rfl
  · exact .inr rfl

theorem isAlpha_toChar (l : Letter) : l.toChar.isAlpha = true := by
  obtain ⟨verb, relative⟩ := l
  cases verb <;> cases relative <;> rfl

theorem isSeparator_toChar (l : Letter) : isSeparator l.toChar = false := by
  obtain ⟨verb, relative⟩ := l
  cases verb <;> cases relative <;> rfl

theorem repeated_eq_some_iff {l m : Letter} : l.repeated = some m ↔ Repeats l m := by
  obtain ⟨verb, relative⟩ := l
  constructor
  · intro h
    cases verb <;> simp only [Letter.repeated, Option.some.injEq, reduceCtorEq] at h <;> subst h
    case moveTo => exact .moveTo
    all_goals exact .same (by simp) (by simp)
  · rintro (_ | ⟨hm, hc⟩)
    · rfl
    · cases verb <;> first | rfl | exact absurd rfl hm | exact absurd rfl hc

theorem verb_ne_close_of_repeats {l m : Letter} (h : Repeats l m) : m.verb ≠ .close :=
  verb_ne_close_of_repeated (repeated_eq_some_iff.mpr h)

theorem arguments_ne_nil {s : Segment Literal} (h : s.verb ≠ .close) : s.arguments ≠ [] := by
  cases s <;> simp [Segment.arguments, pointArguments, Segment.verb] at h ⊢

/-! ## Commands -/

theorem not_isAlpha_of_startsNumber {c : Char} (h : startsNumber c = true) : c.isAlpha = false := by
  simp only [startsNumber, Bool.or_eq_true, beq_iff_eq] at h
  rcases h with ((h | rfl) | rfl) | rfl
  · simp only [Char.isDigit, Bool.and_eq_true, decide_eq_true_eq, UInt32.le_iff_toNat_le] at h
    have hd : c.val.toNat ≤ 57 := h.2
    rw [Bool.eq_false_iff]
    intro ha
    have ha : (decide ('A'.val ≤ c.val ∧ c.val ≤ 'Z'.val) ||
        ('a'.val ≤ c.val && c.val ≤ 'z'.val)) = true := ha
    simp only [Bool.or_eq_true, Bool.and_eq_true, decide_eq_true_eq,
      UInt32.le_iff_toNat_le] at ha
    have : 58 ≤ c.val.toNat := ha.elim (fun h => Nat.le_trans (by decide) h.1)
      fun h => Nat.le_trans (by decide) h.1
    omega
  all_goals rfl

theorem startsNumber_of_spellsArguments {as : List Argument} {cs rest : List Char} (hn : as ≠ [])
    (h : SpellsArguments as cs rest) :
    ∃ c tail, skipSeparators cs = c :: tail ∧ startsNumber c = true ∧
      SpellsArguments as (c :: tail) rest := by
  cases h with
  | nil => exact absurd rfl hn
  | cons hs ht hr =>
    rw [skipSeparators_append hs, skipSeparators_of_token ht]
    obtain ⟨c, tail, rfl, hc⟩ := startsNumber_of_token ht
    exact ⟨c, tail, rfl, hc, .cons (show Separators [] from fun _ hc => nomatch hc) ht hr⟩

theorem spellsArguments_of_skip {as : List Argument} {cs rest : List Char} (hn : as ≠ [])
    (h : SpellsArguments as (skipSeparators cs) rest) : SpellsArguments as cs rest := by
  obtain ⟨seps, hs, he⟩ := exists_separators cs
  generalize skipSeparators cs = ds at h he
  subst he
  cases h with
  | nil => exact absurd rfl hn
  | cons hs' ht hr =>
    rw [← List.append_assoc]
    refine .cons (fun c hc => ?_) ht hr
    exact (List.mem_append.mp hc).elim (hs c) (hs' c)

/-- `command` reads the commands of the grammar. -/
theorem command_eq_ok_iff {source : List Char} {previous : Option Letter} {ch : Char}
    {cs tail rest : List Char} {c : Command Literal} (hs : skipSeparators cs = ch :: tail) :
    command source previous ch tail = .ok (c, rest) ↔ SpellsCommand previous c cs rest := by
  constructor
  · intro h
    unfold command unexpected at h
    split at h
    · split at h
      · cases h
      rename_i hm
      split at h
      · rename_i l hl
        obtain ⟨rfl, ha⟩ := arguments_eq_ok_iff.mp h
        obtain ⟨seps, hsep, he⟩ := exists_separators cs
        rw [he, hs, ← toChar_of_ofChar? hl]
        refine .letter hsep (fun hp => ?_) ha
        simp only [hp, Option.isNone_none, Bool.true_and, Bool.and_eq_true, bne_iff_ne, ne_eq,
          not_and, Decidable.not_not] at hm
        exact verb_eq_moveTo hl (Decidable.or_iff_not_imp_left.mpr hm)
      · cases h
    · split at h
      · split at h
        · rename_i l hl
          obtain ⟨p, hp, hr⟩ := Option.bind_eq_some_iff.mp hl
          obtain ⟨rfl, ha⟩ := arguments_eq_ok_iff.mp h
          have hr := repeated_eq_some_iff.mp hr
          refine .repeated hp hr ?_
          rw [← hs] at ha
          exact spellsArguments_of_skip (arguments_ne_nil (verb_ne_close_of_repeats hr)) ha
        · cases h
      · cases h
  · intro h
    cases h with
    | letter hsep hp ha =>
      rw [skipSeparators_append hsep, skipSeparators_cons (isSeparator_toChar _)] at hs
      obtain ⟨rfl, rfl⟩ := List.cons.inj hs
      unfold command
      rw [if_pos (isAlpha_toChar _), if_neg, Letter.ofChar?_toChar]
      · exact arguments_eq_ok_iff.mpr ⟨rfl, ha⟩
      · simp only [Bool.and_eq_true, Option.isNone_iff_eq_none, bne_iff_ne, ne_eq, not_and,
          Decidable.not_not]
        rintro ⟨hn, hM⟩
        exact (toChar_of_moveTo (l := c.letter) (hp hn)).resolve_left hM
    | repeated hp hr ha =>
      obtain ⟨c', tail', hs', hc, ha⟩ :=
        startsNumber_of_spellsArguments (arguments_ne_nil (verb_ne_close_of_repeats hr)) ha
      obtain ⟨rfl, rfl⟩ := List.cons.inj (hs.symm.trans hs')
      unfold command
      rw [if_neg (by simp [not_isAlpha_of_startsNumber hc]), if_pos hc, hp, Option.bind_some,
        repeated_eq_some_iff.mpr hr]
      exact arguments_eq_ok_iff.mpr ⟨rfl, ha⟩

theorem skipSeparators_of_spellsCommand {previous : Option Letter} {c : Command Literal}
    {cs rest : List Char} (h : SpellsCommand previous c cs rest) : skipSeparators cs ≠ [] := by
  cases h with
  | letter hs =>
    rw [skipSeparators_append hs, skipSeparators_cons (isSeparator_toChar _)]
    exact List.cons_ne_nil _ _
  | repeated _ hr ha =>
    obtain ⟨c, tail, he, -⟩ :=
      startsNumber_of_spellsArguments (arguments_ne_nil (verb_ne_close_of_repeats hr)) ha
    rw [he]
    exact List.cons_ne_nil _ _

/-- `commands` reads the commands of the grammar. -/
theorem commands_eq_ok_iff {source : List Char} {previous : Option Letter} {cs : List Char}
    {cmds : List (Command Literal)} :
    commands source previous cs = .ok cmds ↔ Spells previous cmds cs := by
  fun_induction commands source previous cs generalizing cmds with
  | case1 previous cs hs =>
    constructor
    · rintro ⟨⟩
      exact .nil (skipSeparators_eq_nil_iff.mp hs)
    · rintro (_ | ⟨hc, -⟩)
      · rfl
      · exact absurd hs (skipSeparators_of_spellsCommand hc)
  | case2 previous cs ch tail hs e hc =>
    refine ⟨fun h => (nomatch h), ?_⟩
    rintro (hn | ⟨hc', -⟩)
    · rw [skipSeparators_eq_nil_iff.mpr hn] at hs
      cases hs
    · rw [(command_eq_ok_iff hs).mpr hc'] at hc
      cases hc
  | case3 previous cs ch tail hs c rest hc _ ih =>
    constructor
    · intro h
      obtain ⟨others, ho, rfl⟩ := Outcome.map_eq_ok_iff.mp h
      exact .cons ((command_eq_ok_iff hs).mp hc) (ih.mp ho)
    · rintro (hn | ⟨hc', hr⟩)
      · rw [skipSeparators_eq_nil_iff.mpr hn] at hs
        cases hs
      · obtain ⟨rfl, rfl⟩ := Prod.mk.inj (Except.ok.inj
          (hc.symm.trans ((command_eq_ok_iff hs).mpr hc')))
        rw [ih.mpr hr]
        rfl

/-- `parse` reads exactly the commands that a text spells. -/
theorem parse_eq_ok_iff {d : String} {cmds : List (Command Literal)} :
    parse d = .ok cmds ↔ Spells none cmds d.toList :=
  commands_eq_ok_iff

end LaserCut.PathData
