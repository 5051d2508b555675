import LaserCut.Binary64
import LaserCut.PathData.Outline
import LaserCut.Proofs.PathData.Written
import LaserCut.Proofs.Text.Places
import Mathlib.Tactic.SplitIfs

/-!
# Where path data is refused

An error of path data carries the place of the first token that cannot stand there. What is before
it can be completed, and it reads the same however it is completed.

* `Completable`: a reader takes the same from a text that is cut behind it, there is a text that it
  takes, and where a parameter is missing it can be supplied; readers in a row keep this
  (`Completable.bind`);
* `Stops`, `stops_of_commands_eq_error`: where the commands of a text stop with an error;
* `curves_eq_error_pointsInto`: the offset of an error is a place between two characters of the
  text, and what is before it is the beginning of path data;
* `unexpectedCharacter_isLeadByte`: an unexpected character is reported by the first byte of its
  UTF-8 form, which is the character itself if that is ASCII, and not always else
  (`not_unexpectedCharacter_isCharacter`).
-/

namespace LaserCut.PathData

/-! ## Texts that are cut -/

theorem endsNumber_append {cs ds : List Char} (hc : EndsNumber cs) (hd : EndsNumber ds) :
    EndsNumber (cs ++ ds) := by
  cases cs with
  | nil => exact hd
  | cons c cs => exact endsNumber_cons (hc c rfl) _

/-- The longest numeral is still the longest when the text is cut behind it, and goes on with
something that ends numbers. -/
theorem longest_cut {n : Numeral} {cs kept after tail : List Char}
    (h : n.Longest cs (kept ++ after)) (ends : EndsNumber tail) :
    n.Longest (n.text ++ (kept ++ tail)) (kept ++ tail) where
  eq_append := rfl
  le_of_append m rest same := by
    rw [← List.append_assoc] at same
    rcases List.append_eq_append_iff.mp same with ⟨s, longer, rfl⟩ | ⟨s, within, rfl⟩
    · cases s with
      | nil =>
        have bound := h.le_of_append m after (by
          rw [h.eq_append, ← List.append_assoc, longer, List.append_nil])
        simp only [List.length_append, List.nil_append] at bound ⊢
        omega
      | cons c s =>
        -- The other numeral goes on into the new text, which begins with a separator.
        refine absurd ?_ (not_mem_text m (ends c rfl))
        rw [longer]
        exact List.mem_append_right _ List.mem_cons_self
    · have bound := h.le_of_append m (s ++ after) (by
        rw [h.eq_append, ← List.append_assoc, within, List.append_assoc])
      simp only [List.length_append] at bound ⊢
      omega

theorem token_cut {a : Argument} {cs kept after : List Char} (h : a.Token cs (kept ++ after)) :
    ∃ token, cs = token ++ (kept ++ after) ∧
      ∀ tail, EndsNumber tail → a.Token (token ++ (kept ++ tail)) (kept ++ tail) := by
  cases h with
  | number longest => exact ⟨_, longest.eq_append, fun _ ends => .number (longest_cut longest ends)⟩
  | zero => exact ⟨['0'], rfl, fun _ _ => .zero⟩
  | one => exact ⟨['1'], rfl, fun _ _ => .one⟩

/-- Parameters are spelled by the same text whatever follows it, as long as it ends numbers. -/
theorem spellsArguments_cut {as : List Argument} {cs rest : List Char}
    (h : SpellsArguments as cs rest) {kept after : List Char} (split : rest = kept ++ after) :
    ∃ taken, cs = taken ++ (kept ++ after) ∧ ∀ tail, EndsNumber tail →
      SpellsArguments as (taken ++ (kept ++ tail)) (kept ++ tail) := by
  induction h with
  | nil => exact ⟨[], split, fun _ _ => .nil⟩
  | @cons a as seps cs mid rest hs token _ ih =>
    obtain ⟨taken, rfl, spells⟩ := ih split
    rw [← List.append_assoc] at token
    obtain ⟨text, rfl, again⟩ := token_cut token
    refine ⟨seps ++ (text ++ taken), by simp only [List.append_assoc], fun tail ends => ?_⟩
    have token := again tail ends
    simp only [List.append_assoc] at token ⊢
    exact .cons hs token (spells tail ends)

/-! ## Readers that can be completed -/

/-- A parameter is missing at the text `after`, within the text `source`. -/
inductive Missing (source after : List Char) : PathError → Prop
  | number {command : Char} :
    Missing source after (.expectedNumber command (Text.offset source after))
  | flag : Missing source after (.invalidFlag (Text.offset source after))

/-- A reader whose texts can be cut and completed. -/
structure Completable (source : List Char) {α : Type} (r : Reader α) : Prop where
  /-- What is read is read again when the text behind it is cut and goes on with something that ends
  numbers. -/
  cut {cs kept after : List Char} {a : α} : r cs = .ok (a, kept ++ after) →
    ∃ taken, cs = taken ++ (kept ++ after) ∧ ∀ tail, EndsNumber tail →
      r (taken ++ (kept ++ tail)) = .ok (a, kept ++ tail)
  /-- There is a text to read. -/
  supply : ∃ a more, EndsNumber more ∧ ∀ tail, EndsNumber tail → r (more ++ tail) = .ok (a, tail)
  /-- Where a parameter is missing, it can be supplied, with all that come after it. -/
  mend {cs : List Char} {e : PathError} : r cs = .error e →
    ∃ kept after a more, cs = kept ++ after ∧ Missing source after e ∧ EndsNumber more ∧
      ∀ tail, EndsNumber tail → r (kept ++ (more ++ tail)) = .ok (a, tail)

namespace Completable

variable {source : List Char} {α β : Type}

theorem pure (a : α) : Completable source (Pure.pure a : Reader α) where
  cut h := by
    obtain ⟨rfl, rfl⟩ := pure_eq_ok_iff.mp h
    exact ⟨[], rfl, fun _ _ => rfl⟩
  supply := ⟨a, [], endsNumber_nil, fun _ _ => rfl⟩
  mend h := nomatch h

theorem bind_eq_error_iff {r : Reader α} {f : α → Reader β} {cs : List Char} {e : PathError} :
    (r >>= f) cs = .error e ↔ r cs = .error e ∨ ∃ a mid, r cs = .ok (a, mid) ∧ f a mid = .error e :=
  by
  show (r cs >>= fun s => f s.1 s.2) = .error e ↔ _
  rw [Outcome.bind_eq_error_iff]
  simp only [Prod.exists]

theorem bind {r : Reader α} {f : α → Reader β} (hr : Completable source r)
    (hf : ∀ a, Completable source (f a)) : Completable source (r >>= f) where
  cut {cs kept after b} h := by
    obtain ⟨a, mid, first, second⟩ := bind_eq_ok_iff.mp h
    obtain ⟨behind, rfl, takes⟩ := (hf a).cut second
    rw [← List.append_assoc] at first
    obtain ⟨taken, rfl, again⟩ := hr.cut first
    refine ⟨taken ++ behind, by simp only [List.append_assoc], fun tail ends => ?_⟩
    have first := again tail ends
    simp only [List.append_assoc] at first ⊢
    exact bind_eq_ok_iff.mpr ⟨a, _, first, takes tail ends⟩
  supply := by
    obtain ⟨a, first, hfirst, takesFirst⟩ := hr.supply
    obtain ⟨b, second, hsecond, takesSecond⟩ := (hf a).supply
    refine ⟨b, first ++ second, endsNumber_append hfirst hsecond, fun tail ends => ?_⟩
    rw [List.append_assoc]
    exact bind_eq_ok_iff.mpr
      ⟨a, _, takesFirst _ (endsNumber_append hsecond ends), takesSecond tail ends⟩
  mend {cs e} h := by
    rcases bind_eq_error_iff.mp h with failed | ⟨a, mid, first, failed⟩
    · obtain ⟨kept, after, a, more, rfl, missing, hmore, takes⟩ := hr.mend failed
      obtain ⟨b, others, hothers, takesOthers⟩ := (hf a).supply
      refine ⟨kept, after, b, more ++ others, rfl, missing, endsNumber_append hmore hothers,
        fun tail ends => ?_⟩
      rw [List.append_assoc]
      exact bind_eq_ok_iff.mpr
        ⟨a, _, takes _ (endsNumber_append hothers ends), takesOthers tail ends⟩
    · obtain ⟨kept, after, b, more, rfl, missing, hmore, takes⟩ := (hf a).mend failed
      obtain ⟨taken, rfl, again⟩ := hr.cut first
      refine ⟨taken ++ kept, after, b, more, by rw [List.append_assoc], missing, hmore,
        fun tail ends => ?_⟩
      rw [List.append_assoc]
      exact bind_eq_ok_iff.mpr
        ⟨a, _, again _ (endsNumber_append hmore ends), takes tail ends⟩

end Completable

/-- The numeral of zero, which completes a text where a number is missing. -/
def zeroNumeral : Numeral where
  sign := none
  whole := ['0']
  fraction := none
  exponent := none
  isDigit_whole := List.all_eq_true.mp rfl
  isDigit_fraction := nofun
  ne_nil := List.cons_ne_nil _ _

theorem separators_nil : Separators [] := nofun

theorem separators_append_blank {seps : List Char} (h : Separators seps) :
    Separators (seps ++ [' ']) := fun c hc =>
  (List.mem_append.mp hc).elim (h c) fun hc => List.mem_singleton.mp hc ▸ List.mem_cons_self

theorem spellsArguments_zero {seps tail : List Char} (hs : Separators seps)
    (ends : EndsNumber tail) :
    SpellsArguments [.number zeroNumeral.value] (seps ++ ([' ', '0'] ++ tail)) tail := by
  have longest : zeroNumeral.Longest (['0'] ++ tail) tail := by
    obtain ⟨n, longest, -⟩ := Literal.read_eq_some_iff.mp (read_text_append zeroNumeral ends)
    exact ⟨rfl, longest.le_of_append⟩
  have spelled := SpellsArguments.cons (separators_append_blank hs) (.number longest) .nil
  rwa [List.append_assoc] at spelled

theorem spellsArguments_false {seps : List Char} (hs : Separators seps) (tail : List Char) :
    SpellsArguments [.flag false] (seps ++ ([' ', '0'] ++ tail)) tail := by
  have token : Argument.Token (.flag false) ('0' :: tail) tail := .zero
  have spelled := SpellsArguments.cons (separators_append_blank hs) token .nil
  rwa [List.append_assoc] at spelled

section Readers

variable {source : List Char} (command : Char)

theorem completable_number : Completable source (number source command) where
  cut h := by
    obtain ⟨taken, same, again⟩ := spellsArguments_cut (number_eq_ok_iff.mp h) rfl
    exact ⟨taken, same, fun tail ends => number_eq_ok_iff.mpr (again tail ends)⟩
  supply := ⟨zeroNumeral.value, [' ', '0'], endsNumber_cons rfl _, fun tail ends =>
    number_eq_ok_iff.mpr (spellsArguments_zero separators_nil ends)⟩
  mend {cs e} h := by
    obtain ⟨seps, hs, split⟩ := exists_separators cs
    refine ⟨seps, skipSeparators cs, zeroNumeral.value, [' ', '0'], split, ?_,
      endsNumber_cons rfl _, fun tail ends => number_eq_ok_iff.mpr (spellsArguments_zero hs ends)⟩
    unfold number at h
    dsimp only at h
    split at h
    · cases h
    · cases h
      exact .number

theorem completable_flag : Completable source (flag source) where
  cut h := by
    obtain ⟨taken, same, again⟩ := spellsArguments_cut (flag_eq_ok_iff.mp h) rfl
    exact ⟨taken, same, fun tail ends => flag_eq_ok_iff.mpr (again tail ends)⟩
  supply := ⟨false, [' ', '0'], endsNumber_cons rfl _, fun tail _ =>
    flag_eq_ok_iff.mpr (spellsArguments_false separators_nil tail)⟩
  mend {cs e} h := by
    obtain ⟨seps, hs, split⟩ := exists_separators cs
    refine ⟨seps, skipSeparators cs, false, [' ', '0'], split, ?_, endsNumber_cons rfl _,
      fun tail _ => flag_eq_ok_iff.mpr (spellsArguments_false hs tail)⟩
    unfold flag at h
    dsimp only at h
    split at h
    · cases h
    · cases h
    · cases h
      exact .flag

theorem completable_point : Completable source (point source command) :=
  .bind (completable_number command) fun _ => .bind (completable_number command) fun _ => .pure _

theorem completable_segment (verb : Verb) : Completable source (segment source command verb) := by
  have p : Completable source (point source command) := completable_point command
  have n : Completable source (number source command) := completable_number command
  have f : Completable source (flag source) := completable_flag
  cases verb with
  | moveTo | lineTo | smoothQuadratic => exact p.bind fun _ => .pure _
  | horizontal | vertical => exact n.bind fun _ => .pure _
  | cubic => exact p.bind fun _ => p.bind fun _ => p.bind fun _ => .pure _
  | smoothCubic | quadratic => exact p.bind fun _ => p.bind fun _ => .pure _
  | arc =>
    exact p.bind fun _ => n.bind fun _ => f.bind fun _ => f.bind fun _ => p.bind fun _ => .pure _
  | close => exact .pure _

theorem completable_arguments (l : Letter) : Completable source (arguments source l) :=
  (completable_segment l.toChar l.verb).bind fun _ => .pure _

end Readers

/-! ## Commands that stop -/

theorem isSeparator_of_skip {cs tail : List Char} {c : Char} (h : skipSeparators cs = c :: tail) :
    isSeparator c = false := by
  have first := List.head?_dropWhile_not isSeparator cs
  rw [show cs.dropWhile isSeparator = c :: tail from h] at first
  simpa using first

/-- A command is spelled by the same text whatever follows it, as long as it ends numbers. -/
theorem spellsCommand_cut {previous : Option Letter} {c : Command Literal}
    {cs kept after : List Char} (h : SpellsCommand previous c cs (kept ++ after)) :
    ∃ taken, cs = taken ++ (kept ++ after) ∧ ∀ tail, EndsNumber tail →
      SpellsCommand previous c (taken ++ (kept ++ tail)) (kept ++ tail) := by
  cases h with
  | @letter seps _ _ hs first ha =>
    obtain ⟨taken, rfl, again⟩ := spellsArguments_cut ha rfl
    refine ⟨seps ++ c.letter.toChar :: taken, by rw [List.append_assoc, List.cons_append],
      fun tail ends => ?_⟩
    rw [List.append_assoc, List.cons_append]
    exact .letter hs first (again tail ends)
  | repeated hp hr ha =>
    obtain ⟨taken, rfl, again⟩ := spellsArguments_cut ha rfl
    exact ⟨taken, rfl, fun tail ends => .repeated hp hr (again tail ends)⟩

/-- Where the commands of the text `cs`, the last part of `source`, stop with an error. -/
inductive Stops (source : List Char) (previous : Option Letter) (cs : List Char) : PathError → Prop
  | unexpected {kept after : List Char} {c : Char} {cmds : List (Command Literal)} :
    cs = kept ++ c :: after → Spells previous cmds kept →
      Stops source previous cs (.unexpectedCharacter (leadByte c) (Text.offset source (c :: after)))
  | missing {kept after more : List Char} {e : PathError} {cmds : List (Command Literal)} :
    cs = kept ++ after → Missing source after e → EndsNumber more →
      Spells previous cmds (kept ++ more) → Stops source previous cs e
  | noMove {seps after : List Char} {c : Char} : previous = none → cs = seps ++ c :: after →
    Separators seps → isSeparator c = false → c ≠ 'M' → c ≠ 'm' →
      Stops source previous cs (.missingMoveTo c)

section Stops

variable {source : List Char} {previous : Option Letter} {cs : List Char} {e : PathError}

/-- The commands before the one that stops take nothing from what completes it. -/
theorem Stops.cons {c : Command Literal} {rest : List Char} (h : SpellsCommand previous c cs rest)
    (stops : Stops source (some c.letter) rest e) : Stops source previous cs e := by
  cases stops with
  | unexpected split spells =>
    subst split
    obtain ⟨taken, rfl, again⟩ := spellsCommand_cut h
    have first := again [] endsNumber_nil
    rw [List.append_nil] at first
    exact .unexpected (List.append_assoc ..).symm (.cons first spells)
  | @missing kept after more _ cmds split missing ends spells =>
    subst split
    obtain ⟨taken, rfl, again⟩ := spellsCommand_cut h
    have spelled : Spells previous (c :: cmds) (taken ++ (kept ++ more)) :=
      .cons (again more ends) spells
    rw [← List.append_assoc] at spelled
    exact .missing (List.append_assoc ..).symm missing ends spelled
  | noMove isFirst => cases isFirst

theorem stops_of_arguments_eq_error {l : Letter} {front rest : List Char}
    (h : arguments source l rest = .error e) (split : cs = front ++ rest)
    (spells : ∀ (c : Command Literal) (text : List Char), c.letter = l →
      SpellsArguments c.segment.arguments text [] → SpellsCommand previous c (front ++ text) []) :
    Stops source previous cs e := by
  obtain ⟨kept, after, c, more, rfl, missing, ends, takes⟩ := (completable_arguments l).mend h
  obtain ⟨letter, spelled⟩ := arguments_eq_ok_iff.mp (takes [] endsNumber_nil)
  rw [List.append_nil] at spelled
  have completed : Spells previous [c] (front ++ (kept ++ more)) :=
    .cons (spells c _ letter spelled) (.nil nofun)
  rw [← List.append_assoc] at split completed
  exact .missing split missing ends completed

theorem stops_of_command_eq_error {ch : Char} {tail : List Char}
    (hs : skipSeparators cs = ch :: tail) (h : command source previous ch tail = .error e) :
    Stops source previous cs e := by
  obtain ⟨seps, hsep, split⟩ := exists_separators cs
  rw [hs] at split
  have refused : Stops source previous cs
      (.unexpectedCharacter (leadByte ch) (Text.offset source (ch :: tail))) :=
    .unexpected split (.nil hsep)
  unfold command at h
  split at h
  case isTrue alpha =>
    split at h
    case isTrue noMove =>
      simp only [Bool.and_eq_true, Option.isNone_iff_eq_none, bne_iff_ne, ne_eq] at noMove
      cases h
      exact .noMove noMove.1.1 split hsep (isSeparator_of_skip hs) noMove.1.2 noMove.2
    case isFalse move =>
      split at h
      case h_1 l isLetter =>
        have split : cs = (seps ++ [ch]) ++ tail := split.trans (List.append_cons ..)
        refine stops_of_arguments_eq_error h split fun c text letter spelled => ?_
        subst letter
        rw [← toChar_of_ofChar? isLetter, List.append_assoc, List.singleton_append]
        refine .letter hsep (fun isFirst => verb_eq_moveTo isLetter ?_) spelled
        simp only [isFirst, Option.isNone_none, Bool.true_and, Bool.and_eq_true, bne_iff_ne, ne_eq,
          not_and, Decidable.not_not] at move
        exact Decidable.or_iff_not_imp_left.mpr move
      case h_2 =>
        cases h
        exact refused
  case isFalse =>
    split at h
    case isTrue number =>
      split at h
      case h_1 l repeated =>
        obtain ⟨p, hp, hr⟩ := Option.bind_eq_some_iff.mp repeated
        have hr := repeated_eq_some_iff.mp hr
        refine stops_of_arguments_eq_error h split fun c text letter spelled => ?_
        subst letter
        have some := arguments_ne_nil (verb_ne_close_of_repeats hr)
        obtain ⟨_, _, skip, -, spelled⟩ := startsNumber_of_spellsArguments some spelled
        rw [← skip, ← skipSeparators_append hsep] at spelled
        exact .repeated hp hr (spellsArguments_of_skip some spelled)
      case h_2 =>
        cases h
        exact refused
    case isFalse =>
      cases h
      exact refused

/-- Where the commands of a text stop, and what is before. -/
theorem stops_of_commands_eq_error (h : commands source previous cs = .error e) :
    Stops source previous cs e := by
  fun_induction commands source previous cs with
  | case1 => cases h
  | case2 previous cs ch tail hs e' hc =>
    cases h
    exact stops_of_command_eq_error hs hc
  | case3 previous cs ch tail hs c rest hc _ ih =>
    exact .cons ((command_eq_ok_iff hs).mp hc) (ih (Outcome.map_eq_error_iff.mp h))

end Stops

/-! ## The place of an error -/

section Places

variable (α : Type) [Scalar α]

/-- The text is path data. -/
def IsPathData (d : String) : Prop := ∃ cs : List (Curve α), curves d = .ok cs

/-- What an error says of the path data `d` that is refused with it: its offset is that of a
character or the end, and the text up to there is path data, or a beginning of some. -/
def PathError.PointsInto (d : String) : PathError → Prop
  | unexpectedCharacter _ offset =>
    ∃ pos : d.Pos, pos.offset.byteIdx = offset ∧ IsPathData α (d.sliceTo pos).copy
  | expectedNumber _ offset | invalidFlag offset =>
    ∃ pos : d.Pos, pos.offset.byteIdx = offset ∧
      ∃ more, IsPathData α ((d.sliceTo pos).copy ++ more)
  | missingMoveTo command =>
    d.toList.find? (!isSeparator ·) = some command ∧ command ≠ 'M' ∧ command ≠ 'm'

variable {α}

theorem isPathData_iff {d : String} : IsPathData α d ↔ ∃ cmds, Spells none cmds d.toList := by
  simp only [IsPathData, curves, Outcome.map_eq_ok_iff, parse_eq_ok_iff]
  constructor
  · rintro ⟨_, cmds, spells, -⟩
    exact ⟨cmds, spells⟩
  · rintro ⟨cmds, spells⟩
    exact ⟨_, cmds, spells, rfl⟩

variable {d : String} {e : PathError}

theorem stops_of_curves_eq_error (h : curves (α := α) d = .error e) :
    Stops d.toList none d.toList e :=
  stops_of_commands_eq_error (Outcome.map_eq_error_iff.mp h)

theorem find?_separators_append {seps after : List Char} {c : Char} (hs : Separators seps)
    (hc : isSeparator c = false) : (seps ++ c :: after).find? (!isSeparator ·) = some c := by
  have skip : seps.find? (!isSeparator ·) = none := List.find?_eq_none.mpr fun c hc => by
    rw [isSeparator_iff.mpr (hs c hc)]
    decide
  rw [List.find?_append, skip, Option.none_or, List.find?_cons_of_pos (by rw [hc]; rfl)]

/-- An error of path data carries the place where it is. -/
theorem curves_eq_error_pointsInto (h : curves (α := α) d = .error e) : e.PointsInto α d := by
  cases stops_of_curves_eq_error h with
  | @unexpected kept after c cmds split spells =>
    obtain ⟨pos, offset, splits⟩ := Text.exists_pos split
    refine ⟨pos, offset, isPathData_iff.mpr ⟨cmds, ?_⟩⟩
    rw [Text.copy_sliceTo splits, String.toList_ofList]
    exact spells
  | @missing kept after more _ cmds split missing _ spells =>
    obtain ⟨pos, offset, splits⟩ := Text.exists_pos split
    have completed : IsPathData α ((d.sliceTo pos).copy ++ String.ofList more) := by
      refine isPathData_iff.mpr ⟨cmds, ?_⟩
      rw [Text.copy_sliceTo splits, ← String.ofList_append, String.toList_ofList]
      exact spells
    cases missing with
    | number => exact ⟨pos, offset, _, completed⟩
    | flag => exact ⟨pos, offset, _, completed⟩
  | noMove _ split seps notSeparator upper lower =>
    exact ⟨split ▸ find?_separators_append seps notSeparator, upper, lower⟩

/-- An arc whose end lacks its second coordinate, in front of a letter that is no command. -/
theorem curves_eq_error_pointsInto_arc :
    curves (α := Float) " M0,0 a5 5-3e1 01.5 ,é" = .error (.expectedNumber 'a' 21) ∧
      ∃ pos : " M0,0 a5 5-3e1 01.5 ,é".Pos, pos.offset.byteIdx = 21 ∧
        ∃ more, IsPathData Float ((" M0,0 a5 5-3e1 01.5 ,é".sliceTo pos).copy ++ more) := by
  have refused : curves (α := Float) " M0,0 a5 5-3e1 01.5 ,é" = .error (.expectedNumber 'a' 21) :=
    Outcome.error?_eq_some_iff.mp (by decide +kernel)
  exact ⟨refused, curves_eq_error_pointsInto refused⟩

end Places

/-! ## The character of an error -/

theorem toNat_lt (c : Char) : c.toNat < 0x110000 := by
  have valid : c.toNat < 0xD800 ∨ 0xDFFF < c.toNat ∧ c.toNat < 0x110000 := c.valid
  omega

theorem toNat_ofNat_of_lt {n : Nat} (h : n < 0xD800) : (Char.ofNat n).toNat = n := by
  rw [Char.ofNat, dif_pos (.inl h)]
  rfl

/-- The code of the lead byte of a character. -/
theorem toNat_leadByte (c : Char) : (leadByte c).toNat =
    if c.toNat < 0x80 then c.toNat else if c.toNat < 0x800 then 0xC0 + c.toNat / 0x40
    else if c.toNat < 0x10000 then 0xE0 + c.toNat / 0x1000 else 0xF0 + c.toNat / 0x40000 := by
  have bound := toNat_lt c
  unfold leadByte
  dsimp only
  split_ifs
  · rfl
  all_goals exact toNat_ofNat_of_lt (by omega)

/-- It is the first byte of the character's UTF-8 form. -/
theorem head?_utf8EncodeChar (c : Char) :
    (String.utf8EncodeChar c).head?.map UInt8.toNat = some (leadByte c).toNat := by
  have bound := toNat_lt c
  have code : c.val.toNat = c.toNat := rfl
  rw [toNat_leadByte, String.utf8EncodeChar, code]
  split_ifs <;> first | omega | skip
  all_goals
    simp only [List.head?_cons, Option.map_some, UInt8.toNat_ofNat', Option.some.injEq]
    omega

/-- Beyond ASCII there is one character whose lead byte is its own code. -/
theorem leadByte_eq_iff {c : Char} : leadByte c = c ↔ c.toNat < 0x80 ∨ c = 'Ã' := by
  rw [← Char.toNat_inj, ← @Char.toNat_inj c 'Ã', toNat_leadByte, show 'Ã'.toNat = 195 from rfl]
  split_ifs <;> omega

variable {α : Type} [Scalar α]

/-- What an unexpected character is reported as: the first byte of its UTF-8 form, as the character
of that code. -/
theorem unexpectedCharacter_isLeadByte {d : String} {ch : Char} {offset : Nat}
    (h : curves (α := α) d = .error (.unexpectedCharacter ch offset)) :
    ∃ (pos : d.Pos) (c : Char), pos.offset.byteIdx = offset ∧ pos.get? = some c ∧
      (String.utf8EncodeChar c).head?.map UInt8.toNat = some ch.toNat ∧
      (ch = c ↔ c.toNat < 0x80 ∨ c = 'Ã') := by
  generalize reported : PathError.unexpectedCharacter ch offset = e at h
  cases stops_of_curves_eq_error h with
  | @unexpected _ _ c _ split =>
    cases reported
    obtain ⟨pos, offset, splits⟩ := Text.exists_pos split
    exact ⟨pos, c, offset, Text.get?_pos splits, head?_utf8EncodeChar c, leadByte_eq_iff⟩
  | missing _ missing =>
    subst reported
    cases missing
  | noMove => cases reported

/-- A letter beyond ASCII is reported as another one. -/
theorem unexpectedCharacter_isLeadByte_accent :
    ∃ (pos : "M0,0 é".Pos) (c : Char), pos.offset.byteIdx = 5 ∧ pos.get? = some c ∧
      (String.utf8EncodeChar c).head?.map UInt8.toNat = some 'Ã'.toNat ∧
      ('Ã' = c ↔ c.toNat < 0x80 ∨ c = 'Ã') :=
  unexpectedCharacter_isLeadByte (α := Float)
    (Outcome.error?_eq_some_iff.mp (by decide +kernel))

/-- The character reported is not always the one at the offset. -/
theorem not_unexpectedCharacter_isCharacter :
    ¬ ∀ (d : String) (ch : Char) (offset : Nat),
      curves (α := Float) d = .error (.unexpectedCharacter ch offset) →
        ∃ pos : d.Pos, pos.offset.byteIdx = offset ∧ pos.get? = some ch := by
  intro claim
  obtain ⟨pos, offset, reported⟩ := claim "M0,0 é" 'Ã' 5
    (Outcome.error?_eq_some_iff.mp (by decide +kernel))
  have parts : "M0,0 é".toList = "M0,0 ".toList ++ ['é'] := by decide
  obtain ⟨pos', offset', splits⟩ := Text.exists_pos parts
  have same : pos' = pos :=
    String.Pos.ext (String.Pos.Raw.ext (offset'.trans ((by decide : _ = 5).trans offset.symm)))
  have standing := Text.get?_pos splits
  rw [same, reported] at standing
  exact absurd standing (by decide)

end LaserCut.PathData
