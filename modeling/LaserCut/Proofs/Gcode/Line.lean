import LaserCut.Gcode.Instruction
import LaserCut.Proofs.Decimal.Characters
import LaserCut.Proofs.Text.Fields

/-!
# Lines of instructions

What the line of an instruction says to a reader who cuts it into words.

* `Dialect.isSilent_iff`: an instruction is left out of programs exactly when its line is empty;
* `lineWords`: the words of a line;
* `Dialect.lineWords_rapid`, `Dialect.lineWords_cut`: the words of a move are its code, its feed and
  its axis words;
* `Dialect.lineWords_absolute` and the like: the words of lines that have a code of their own.
-/

namespace LaserCut.Gcode

/-- Only the tool's lines and the user's own can be empty. -/
theorem Dialect.isSilent_iff (d : Dialect) (i : Instruction Float) :
    d.isSilent i ↔ d.line i = "" := by
  cases i with
  | toolOff =>
    rcases d with ⟨places, _ | t⟩
    · simp [isSilent, line]
    · exact String.isEmpty_iff
  | toolOn power =>
    rcases d with ⟨places, _ | t⟩
    · simp [isSilent, line]
    · exact String.isEmpty_iff
  | unit u => cases u <;> simp [isSilent, line]
  | verbatim line => exact String.isEmpty_iff
  | _ => simp [isSilent, line]

/-- What is left out of programs, by the lines. -/
theorem Dialect.not_isSilent_eq (d : Dialect) :
    (fun i => !d.isSilent i) = fun i => decide (d.line i ≠ "") := by
  funext i
  rw [Bool.eq_iff_iff, Bool.not_eq_true', decide_eq_true_iff, ← Bool.not_eq_true, d.isSilent_iff]

/-! ## Words -/

/-- A letter and the number it gives. -/
structure Word where
  letter : Char
  number : String
deriving DecidableEq, Repr

namespace Word

def text (w : Word) : List Char := w.letter :: w.number.toList

def ofPiece? : List Char → Option Word
  | [] => none
  | c :: cs => some ⟨c, String.ofList cs⟩

/-- Neither a blank nor a semicolon is part of the word. -/
def Plain (w : Word) : Prop := ∀ c ∈ w.text, (c == ' ') = false ∧ (c != ';') = true

theorem ofPiece?_text (w : Word) : ofPiece? w.text = some w := by
  rw [text, ofPiece?, String.ofList_toList]

theorem text_ne_nil (w : Word) : w.text ≠ [] := List.cons_ne_nil _ _

end Word

/-- The words of a line: the pieces between blanks of what stands before the semicolon. -/
def lineWords (line : String) : List Word :=
  (Text.fields (· == ' ') (line.toList.takeWhile (· != ';'))).filterMap Word.ofPiece?

/-- The first number that stands behind a letter. -/
def number? (letter : Char) (words : List Word) : Option String :=
  (words.find? (·.letter == letter)).map Word.number

/-- Words with a blank before each. -/
def spaced (words : List Word) : List Char := words.flatMap fun w => ' ' :: w.text

theorem fields_spaced {w : Word} {words : List Word} (plain : ∀ v ∈ w :: words, v.Plain) :
    Text.fields (· == ' ') (w.text ++ spaced words) = (w :: words).map Word.text := by
  have first := fun c hc => (plain w List.mem_cons_self c hc).1
  induction words generalizing w with
  | nil =>
    rw [spaced, List.flatMap_nil, List.append_nil, Text.fields_of_forall_not first w.text_ne_nil]
    rfl
  | cons v words ih =>
    have rest : ∀ u ∈ v :: words, u.Plain := fun u hu => plain u (List.mem_cons_of_mem _ hu)
    rw [spaced, List.flatMap_cons, List.cons_append,
      Text.fields_append_cons first w.text_ne_nil (by decide)]
    exact congrArg _ (ih rest fun c hc => (rest v List.mem_cons_self c hc).1)

/-- A line of plain words is read as these words. -/
theorem lineWords_eq {line : String} {w : Word} {words : List Word}
    (plain : ∀ v ∈ w :: words, v.Plain) (h : line.toList = w.text ++ spaced words ++ [';']) :
    lineWords line = w :: words := by
  have before : ∀ c ∈ w.text ++ spaced words, (c != ';') = true := by
    intro c hc
    rw [spaced, List.mem_append, List.mem_flatMap] at hc
    rcases hc with hc | ⟨v, hv, hc⟩
    · exact (plain w List.mem_cons_self c hc).2
    · rcases List.mem_cons.mp hc with rfl | hc
      · rfl
      · exact (plain v (List.mem_cons_of_mem _ hv) c hc).2
  have read : Word.ofPiece? ∘ Word.text = some := funext Word.ofPiece?_text
  rw [lineWords, h, List.takeWhile_append_of_pos before]
  show (Text.fields _ (w.text ++ spaced words ++ [])).filterMap _ = _
  rw [List.append_nil, fields_spaced plain, List.filterMap_map, read, List.filterMap_some]

example : lineWords "G1 F750 X1.0; up" = [⟨'G', "1"⟩, ⟨'F', "750"⟩, ⟨'X', "1.0"⟩] := by decide

/-! ## Words of moves -/

theorem Word.plain_of_number {letter : Char} {number : String}
    (hl : Decimal.isNumberChar letter = true)
    (hn : ∀ c ∈ number.toList, Decimal.isNumberChar c = true) :
    (⟨letter, number⟩ : Word).Plain := by
  have plain : ∀ c, Decimal.isNumberChar c = true → (c == ' ') = false ∧ (c != ';') = true := by
    intro c hc
    refine ⟨?_, ?_⟩
    · rw [beq_eq_false_iff_ne]
      intro h
      rw [h] at hc
      cases hc
    · rw [bne_iff_ne]
      intro h
      rw [h] at hc
      cases hc
  intro c hc
  rcases List.mem_cons.mp hc with rfl | hc
  · exact plain _ hl
  · exact plain c (hn c hc)

namespace Dialect

variable (d : Dialect)

def feedWord (feed : Option Float) : List Word :=
  (feed.map fun f => ⟨'F', Decimal.shortest f⟩).toList

def axisWord (letter : Char) (value : Option Float) : List Word :=
  (value.map fun v => ⟨letter, Decimal.fixed d.places v⟩).toList

/-- The words that a move has behind its code. -/
def moveWords (feed : Option Float) (w : AxisWords Float) : List Word :=
  feedWord feed ++ (d.axisWord 'X' w.x ++ d.axisWord 'Y' w.y ++ d.axisWord 'Z' w.z)

theorem plain_of_mem_moveWords {feed : Option Float} {w : AxisWords Float} {v : Word}
    (h : v ∈ d.moveWords feed w) : v.Plain := by
  have axis : ∀ {letter value}, Decimal.isNumberChar letter = true →
      v ∈ d.axisWord letter value → v.Plain := by
    intro letter value hl h
    rcases value with _ | x
    · cases h
    · rw [List.mem_singleton.mp h]
      exact Word.plain_of_number hl fun c =>
        (Decimal.isPrinted_fixed d.places x).isNumberChar_of_mem
  rw [moveWords, List.mem_append, List.mem_append, List.mem_append] at h
  rcases h with h | (h | h) | h
  · rcases feed with _ | f
    · cases h
    · rw [List.mem_singleton.mp h]
      exact Word.plain_of_number rfl fun c => (Decimal.isPrinted_shortest f).isNumberChar_of_mem
  · exact axis rfl h
  · exact axis rfl h
  · exact axis rfl h

theorem toList_word (letter : Char) (value : Option Float) :
    (d.word (String.singleton letter) value).toList = spaced (d.axisWord letter value) := by
  rcases value with _ | x
  · rfl
  · simp [word, axisWord, spaced, Word.text]

theorem toList_words (w : AxisWords Float) :
    (d.words w).toList =
      spaced (d.axisWord 'X' w.x ++ d.axisWord 'Y' w.y ++ d.axisWord 'Z' w.z) := by
  simp only [words, String.toList_append, spaced, List.flatMap_append]
  rw [← spaced, ← spaced, ← spaced, ← toList_word, ← toList_word, ← toList_word]
  rfl

theorem lineWords_rapid (w : AxisWords Float) :
    lineWords (d.line (.rapid w)) = ⟨'G', "0"⟩ :: d.moveWords none w := by
  apply lineWords_eq
  · intro v hv
    rcases List.mem_cons.mp hv with rfl | hv
    · exact Word.plain_of_number rfl (List.all_eq_true.mp rfl)
    · exact d.plain_of_mem_moveWords hv
  · rw [line, String.toList_append, String.toList_append, toList_words]
    rfl

theorem lineWords_cut (feed : Option Float) (w : AxisWords Float) :
    lineWords (d.line (.cut feed w)) = ⟨'G', "1"⟩ :: d.moveWords feed w := by
  apply lineWords_eq
  · intro v hv
    rcases List.mem_cons.mp hv with rfl | hv
    · exact Word.plain_of_number rfl (List.all_eq_true.mp rfl)
    · exact d.plain_of_mem_moveWords hv
  · rw [line, String.toList_append, String.toList_append, String.toList_append, toList_words]
    rcases feed with _ | f
    · rfl
    · simp [moveWords, feedWord, spaced, Word.text]

/-! ## Words of other lines -/

theorem lineWords_absolute : lineWords (d.line .absolute) = [⟨'G', "90"⟩] := by
  rw [line]
  decide

theorem lineWords_relative : lineWords (d.line .relative) = [⟨'G', "91"⟩] := by
  rw [line]
  decide

theorem lineWords_setOrigin :
    lineWords (d.line .setOrigin) = [⟨'G', "92"⟩, ⟨'X', "0"⟩, ⟨'Y', "0"⟩, ⟨'Z', "0"⟩] := by
  rw [line]
  decide

theorem lineWords_unit (u : LengthUnit) :
    lineWords (d.line (.unit u)) =
      [⟨'G', match u with | .millimeters => "21" | .inches => "20"⟩] := by
  cases u <;> rw [line] <;> decide

theorem lineWords_home : lineWords (d.line .home) = [⟨'G', "28"⟩] := by
  rw [line]
  decide

theorem lineWords_dwell (milliseconds : Nat) :
    lineWords (d.line (.dwell milliseconds)) = [⟨'G', "4"⟩, ⟨'P', toString milliseconds⟩] := by
  have digits : (toString milliseconds).toList = Nat.toDigits 10 milliseconds := by
    rw [Nat.toString_eq_ofList_toDigits, String.toList_ofList]
  apply lineWords_eq
  · intro v hv
    rcases List.mem_cons.mp hv with rfl | hv
    · exact Word.plain_of_number rfl (List.all_eq_true.mp rfl)
    · rw [List.mem_singleton.mp hv]
      refine Word.plain_of_number rfl fun c hc => ?_
      rw [digits] at hc
      exact Decimal.isNumberChar_of_isDigit (Decimal.isDigit_of_mem_toDigits hc)
  · rw [line, String.toList_append, String.toList_append]
    simp [spaced, Word.text]

end Dialect

end LaserCut.Gcode
