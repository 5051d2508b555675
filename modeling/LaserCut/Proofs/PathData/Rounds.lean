import LaserCut.Proofs.PathData.Cursor
import LaserCut.Proofs.PathData.Faults

/-!
# The rounds of a scan

Path data is scanned in rounds: each skips separators, takes a letter or repeats the command before
it, and draws. A round that does not end the scan passes a byte that is no separator, so the rounds
are numbered by the bytes, whatever the text is.

* `Scanner.Advances`: how many bytes other than separators a scanner passes at least, and that its
  cursor stays within the text; scanners in a row add up (`Scanner.Advances.bind`);
* `Scanner.Mirrors.bind`: scanners in a row do what the readers do;
* `Scanner.round`, `Scanner.loop`: the scan, which is cut off after a number of rounds;
* `Scanner.loop_ends`: as many rounds as there are bytes are enough.
-/

namespace LaserCut.PathData.Scanner

/-! ## Scanners in a row -/

section Monad

variable {α β : Type}

theorem bind_apply (s : Scanner α) (f : α → Scanner β) (pos : Nat) :
    (s >>= f) pos = match s pos with
      | (.ok a, next) => f a next
      | (.error e, finish) => (.error e, finish) := by
  simp only [bind, ExceptT.bind, ExceptT.mk, ExceptT.bindCont, StateT.bind]
  cases s pos with
  | mk outcome next => cases outcome <;> rfl

variable {d : String}

theorem Mirrors.pure (a : α) : Mirrors d (Pure.pure a : Reader α) (Pure.pure a : Scanner α) :=
  fun _ _ h => .ok h

theorem Mirrors.bind {r : Reader α} {s : Scanner α} {f : α → Reader β} {g : α → Scanner β}
    (first : Mirrors d r s) (next : ∀ a, Mirrors d (f a) (g a)) :
    Mirrors d (r >>= f) (s >>= g) := by
  intro kept cs h
  rw [bind_apply]
  show Matches d (r cs >>= fun p => f p.1 p.2) _
  have same := first kept cs h
  generalize r cs = read, s (Text.byteSize kept) = scanned at same
  cases same with
  | ok parts => exact next _ _ _ parts
  | error e finish => exact .error e finish

end Monad

/-! ## Bytes ahead -/

section Ahead

variable (d : String)

/-- The number of bytes from a place on that are no separators. -/
def ahead (pos : Nat) : Nat := (rest d pos).countP (!isSeparator ·)

variable {d} {pos : Nat}

theorem ahead_le (d : String) (pos : Nat) : ahead d pos ≤ d.utf8ByteSize := by
  have bound := List.countP_le_length (p := (!isSeparator ·)) (l := rest d pos)
  rw [length_rest] at bound
  exact Nat.le_trans bound (Nat.sub_le _ _)

/-- Separators do not count. -/
theorem ahead_passAll (d : String) (pos : Nat) :
    ahead d (passAll d isSeparator pos) = ahead d pos := by
  have split := List.takeWhile_append_dropWhile (p := isSeparator) (l := rest d pos)
  have none : ((rest d pos).takeWhile isSeparator).countP (!isSeparator ·) = 0 :=
    List.countP_eq_zero.mpr fun c hc => by
      simpa using List.all_eq_true.mp List.all_takeWhile c hc
  rw [ahead, ahead, rest_passAll, ← split, List.countP_append, none, Nat.zero_add, split]

theorem ahead_of_peek {c : Char} (seen : peek d pos = some c) :
    ahead d pos = ahead d (pos + 1) + if isSeparator c then 0 else 1 := by
  obtain ⟨none, -⟩ | ⟨c', seen', left⟩ := peek_cases d pos
  · cases seen.symm.trans none
  · cases seen.symm.trans seen'
    rw [ahead, left, List.countP_cons, ahead]
    cases isSeparator c <;> rfl

theorem ahead_eq_zero (none : peek d pos = none) : ahead d pos = 0 := by
  obtain ⟨-, left⟩ | ⟨c, seen, -⟩ := peek_cases d pos
  · rw [ahead, left]
    rfl
  · cases none.symm.trans seen

/-- Where fewer bytes are ahead that are no separators, one has been passed. -/
theorem exists_peek_of_ahead_lt {next : Nat} (ordered : pos ≤ next)
    (h : ahead d next < ahead d pos) :
    ∃ k c, pos ≤ k ∧ k < next ∧ peek d k = some c ∧ isSeparator c = false := by
  obtain ⟨n, rfl⟩ := Nat.exists_eq_add_of_le ordered
  induction n generalizing pos with
  | zero => exact absurd h (Nat.lt_irrefl _)
  | succ n ih =>
    cases seen : peek d pos with
    | none => exact absurd h (by rw [ahead_eq_zero seen]; exact Nat.not_lt_zero _)
    | some c =>
      cases solid : isSeparator c with
      | false => exact ⟨pos, c, Nat.le_refl _, by omega, seen, solid⟩
      | true =>
        rw [ahead_of_peek seen, solid, if_pos rfl, Nat.add_zero,
          show pos + (n + 1) = pos + 1 + n by omega] at h
        obtain ⟨k, c, le, lt, found⟩ := ih (Nat.le_add_right _ _) h
        exact ⟨k, c, by omega, by omega, found⟩

/-! ## Scanners that advance -/

/-- The cursor has moved forward within the text, and if the scanner succeeded, over `n` bytes at
least that are no separators. -/
structure Forward (d : String) (pos n : Nat) {α : Type} (result : Except PathError α × Nat) :
    Prop where
  le_cursor : pos ≤ result.2
  cursor_le : result.2 ≤ d.utf8ByteSize
  passed {a : α} : result.1 = .ok a → ahead d result.2 + n ≤ ahead d pos

theorem Forward.mono {α : Type} {m n : Nat} {result : Except PathError α × Nat}
    (h : Forward d pos n result) (less : m ≤ n) : Forward d pos m result :=
  ⟨h.le_cursor, h.cursor_le, fun ok => Nat.le_trans (Nat.add_le_add_left less _) (h.passed ok)⟩

/-- The scanner moves forward from any place of the text. -/
def Advances (d : String) (n : Nat) {α : Type} (s : Scanner α) : Prop :=
  ∀ pos ≤ d.utf8ByteSize, Forward d pos n (s pos)

namespace Advances

variable {α β : Type} {m n : Nat} {s : Scanner α}

theorem pure (a : α) : Advances d 0 (Pure.pure a : Scanner α) := fun _ inside =>
  ⟨Nat.le_refl _, inside, fun _ => Nat.le_refl _⟩

theorem bind {f : α → Scanner β} (first : Advances d m s) (next : ∀ a, Advances d n (f a)) :
    Advances d (m + n) (s >>= f) := by
  intro pos inside
  have before := first pos inside
  rw [bind_apply]
  generalize s pos = result at before
  obtain ⟨outcome, middle⟩ := result
  cases outcome with
  | error e => exact ⟨before.le_cursor, before.cursor_le, nofun⟩
  | ok a =>
    have after := next a middle before.cursor_le
    refine ⟨Nat.le_trans before.le_cursor after.le_cursor, after.cursor_le, fun ok => ?_⟩
    have passed := before.passed rfl
    have further := after.passed ok
    show ahead d (f a middle).2 + (m + n) ≤ ahead d pos
    dsimp only at passed
    omega

end Advances

end Ahead

/-! ## Characters at the cursor -/

section Characters

variable {d : String} {read after : List Char} {c : Char}

theorem leadByte_of_isAscii (h : Text.IsAscii c) : leadByte c = c := if_pos h

theorem isAscii_of_leadByte (h : Text.IsAscii (leadByte c)) : Text.IsAscii c := by
  by_contra beyond
  have code := toNat_leadByte c
  rw [Text.IsAscii] at h beyond
  rw [if_neg beyond] at code
  split_ifs at code <;> omega

/-- No other character begins with the byte of an ASCII character. -/
theorem leadByte_eq_isAscii_iff {b : Char} (h : Text.IsAscii b) : leadByte c = b ↔ c = b := by
  constructor
  · rintro rfl
    exact (leadByte_of_isAscii (isAscii_of_leadByte h)).symm
  · rintro rfl
    exact leadByte_of_isAscii h

/-- The byte where a character begins is its lead byte. -/
theorem peek_byteSize (h : d.toList = read ++ c :: after) :
    peek d (Text.byteSize read) = some (leadByte c) := by
  have first := head?_utf8EncodeChar c
  obtain ⟨byte, bytes, split⟩ : ∃ byte bytes, String.utf8EncodeChar c = byte :: bytes :=
    List.exists_cons_of_length_pos (String.length_utf8EncodeChar c ▸ c.utf8Size_pos)
  rw [split] at first
  have same : Text.ofByte byte = leadByte c :=
    Char.toNat_inj.mp ((Text.toNat_ofByte byte).trans (Option.some.inj first))
  rw [peek_eq, rest_byteSize h, Text.bytes_cons, Text.charBytes, split, List.map_cons, same]
  rfl

theorem peek_end (h : d.toList = read ++ []) : peek d (Text.byteSize read) = none := by
  rw [peek_eq, rest_byteSize h]
  rfl

/-- An ASCII character is passed by one byte. -/
theorem byteSize_succ (read : List Char) (h : Text.IsAscii c) :
    Text.byteSize read + 1 = Text.byteSize (read ++ [c]) := by
  rw [← Text.length_bytes, ← Text.length_bytes, Text.bytes_append,
    Text.bytes_cons_of_isAscii h [], List.length_append]
  rfl

end Characters

/-! ## Tokens -/

section Tokens

variable (d : String)

/-- An arc flag: one digit, after which nothing is required. -/
def flag : Scanner Bool := fun pos =>
  let start := passAll d isSeparator pos
  match peek d start with
  | some '0' => (.ok false, start + 1)
  | some '1' => (.ok true, start + 1)
  | _ => (.error (.invalidFlag start), start)

def point (command : Char) : Scanner (Point Literal) := do
  let x ← number d command
  let y ← number d command
  return ⟨x, y⟩

/-- The parameters of a command. -/
def segment (command : Char) : Verb → Scanner (Segment Literal)
  | .moveTo => do return .moveTo (← point d command)
  | .lineTo => do return .lineTo (← point d command)
  | .horizontal => do return .horizontal (← number d command)
  | .vertical => do return .vertical (← number d command)
  | .cubic => do
    let c₁ ← point d command
    let c₂ ← point d command
    let p ← point d command
    return .cubic c₁ c₂ p
  | .smoothCubic => do
    let c₂ ← point d command
    let p ← point d command
    return .smoothCubic c₂ p
  | .quadratic => do
    let c ← point d command
    let p ← point d command
    return .quadratic c p
  | .smoothQuadratic => do return .smoothQuadratic (← point d command)
  | .arc => do
    let radii ← point d command
    let rotation ← number d command
    let large ← flag d
    let sweep ← flag d
    let p ← point d command
    return .arc radii rotation large sweep p
  | .close => return .close

/-- The command of a letter, from its parameters. -/
def arguments (l : Letter) : Scanner (Command Literal) := do
  return ⟨l.relative, ← segment d l.toChar l.verb⟩

/-- The number of parameters of a command. -/
def parameters : Verb → Nat
  | .moveTo | .lineTo | .smoothQuadratic => 2
  | .horizontal | .vertical => 1
  | .cubic => 6
  | .smoothCubic | .quadratic => 4
  | .arc => 7
  | .close => 0

variable {d}

theorem mirrors_flag : Mirrors d (PathData.flag d.toList) (flag d) := by
  intro kept cs h
  obtain ⟨read, parts, start⟩ := exists_skipped h
  unfold PathData.flag flag
  dsimp only
  rw [start]
  have missing {tail : List Char} (parts : d.toList = read ++ tail) :
      Matches d (.error (.invalidFlag (Text.offset d.toList tail)) : Except _ (Bool × _))
        (.error (.invalidFlag (Text.byteSize read)), Text.byteSize read) := by
    rw [parts, Text.offset_append]
    exact .error _ _
  have digit {c : Char} {after : List Char} (value : Bool) (ascii : Text.IsAscii c)
      (parts : d.toList = read ++ c :: after) :
      Matches d (.ok (value, after)) (.ok value, Text.byteSize read + 1) := by
    rw [List.append_cons] at parts
    rw [byteSize_succ read ascii]
    exact .ok parts
  generalize skipSeparators cs = tail at parts
  cases tail with
  | nil =>
    rw [peek_end parts]
    exact missing parts
  | cons c after =>
    rw [peek_byteSize parts]
    by_cases zero : c = '0'
    · subst zero
      exact digit false (by decide) parts
    by_cases one : c = '1'
    · subst one
      exact digit true (by decide) parts
    have first := mt (leadByte_eq_isAscii_iff (c := c) (b := '0') (by decide)).mp zero
    have second := mt (leadByte_eq_isAscii_iff (c := c) (b := '1') (by decide)).mp one
    split
    · rename_i same
      exact absurd (List.cons.inj same).1 zero
    · rename_i same
      exact absurd (List.cons.inj same).1 one
    · split
      · rename_i same
        exact absurd (Option.some.inj same) first
      · rename_i same
        exact absurd (Option.some.inj same) second
      · exact missing parts

/-- A numeral has a character that is no separator. -/
theorem one_le_countP_text (n : Numeral) : 1 ≤ n.text.countP (!isSeparator ·) := by
  obtain ⟨c, tail, text, starts⟩ := startsNumber_of_text (n := n) (List.append_nil _).symm
  refine List.countP_pos_iff.mpr ⟨c, text ▸ List.mem_cons_self, ?_⟩
  rw [isSeparator_of_startsNumber starts]
  rfl

theorem advances_number (command : Char) : Advances d 1 (number d command) := by
  intro pos inside
  have scans := scans_number command inside
  have start := le_passAll (d := d) isSeparator pos
  have skipped := ahead_passAll d pos
  generalize number d command pos = result at scans
  cases scans with
  | @number n finish found =>
    refine ⟨Nat.le_trans start (Nat.le.intro found.eq_add), found.le_size, fun _ => ?_⟩
    have passed := one_le_countP_text n
    rw [← skipped, ahead, ahead, found.longest.eq_append, List.countP_append]
    dsimp only
    omega
  | missing => exact ⟨start, passAll_le inside, nofun⟩

theorem advances_flag : Advances d 1 (flag d) := by
  intro pos inside
  have start := le_passAll (d := d) isSeparator pos
  have skipped := ahead_passAll d pos
  have digit {c : Char} {value : Bool} (seen : peek d (passAll d isSeparator pos) = some c)
      (solid : isSeparator c = false) :
      Forward d pos 1 (Except.ok value, passAll d isSeparator pos + 1) := by
    refine ⟨Nat.le_succ_of_le start, ?_, fun _ => ?_⟩
    · exact lt_of_peek (p := fun _ => true) (by rw [seen]; rfl)
    · rw [← skipped, ahead_of_peek seen, solid]
      exact Nat.le_refl _
  unfold flag
  dsimp only
  split
  case h_1 seen => exact digit seen rfl
  case h_2 seen => exact digit seen rfl
  case h_3 => exact ⟨start, passAll_le inside, nofun⟩

variable (command : Char)

theorem mirrors_point : Mirrors d (PathData.point d.toList command) (point d command) :=
  .bind (mirrors_number command) fun _ => .bind (mirrors_number command) fun _ => .pure _

theorem mirrors_segment (verb : Verb) :
    Mirrors d (PathData.segment d.toList command verb) (segment d command verb) := by
  have p : Mirrors d (PathData.point d.toList command) (point d command) := mirrors_point command
  have n : Mirrors d (PathData.number d.toList command) (number d command) :=
    mirrors_number command
  have f : Mirrors d (PathData.flag d.toList) (flag d) := mirrors_flag
  cases verb with
  | moveTo | lineTo | smoothQuadratic => exact p.bind fun _ => .pure _
  | horizontal | vertical => exact n.bind fun _ => .pure _
  | cubic => exact p.bind fun _ => p.bind fun _ => p.bind fun _ => .pure _
  | smoothCubic | quadratic => exact p.bind fun _ => p.bind fun _ => .pure _
  | arc =>
    exact p.bind fun _ => n.bind fun _ => f.bind fun _ => f.bind fun _ => p.bind fun _ => .pure _
  | close => exact .pure _

theorem mirrors_arguments (l : Letter) :
    Mirrors d (PathData.arguments d.toList l) (arguments d l) :=
  (mirrors_segment l.toChar l.verb).bind fun _ => .pure _

theorem advances_point : Advances d 2 (point d command) :=
  .bind (advances_number command) fun _ => .bind (advances_number command) fun _ => .pure _

/-- Each parameter takes a byte at least. -/
theorem advances_segment (verb : Verb) : Advances d (parameters verb) (segment d command verb) := by
  have p : Advances d 2 (point d command) := advances_point command
  have n : Advances d 1 (number d command) := advances_number command
  have f : Advances d 1 (flag d) := advances_flag
  cases verb with
  | moveTo | lineTo | smoothQuadratic => exact p.bind fun _ => .pure _
  | horizontal | vertical => exact n.bind fun _ => .pure _
  | cubic => exact p.bind fun _ => p.bind fun _ => p.bind fun _ => .pure _
  | smoothCubic | quadratic => exact p.bind fun _ => p.bind fun _ => .pure _
  | arc =>
    exact p.bind fun _ => n.bind fun _ => f.bind fun _ => f.bind fun _ => p.bind fun _ => .pure _
  | close => exact .pure _

theorem advances_arguments (l : Letter) : Advances d (parameters l.verb) (arguments d l) :=
  (advances_segment l.toChar l.verb).bind fun _ => .pure _

end Tokens

/-! ## Rounds -/

section Rounds

variable (d : String)

/-- The command that begins with the byte `ch` at the cursor. -/
def command (previous : Option Letter) (ch : Char) : Scanner (Command Literal) := fun pos =>
  if ch.isAlpha then
    if previous.isNone && ch != 'M' && ch != 'm' then (.error (.missingMoveTo ch), pos + 1)
    else
      match Letter.ofChar? ch with
      | some l => arguments d l (pos + 1)
      | none => (.error (.unexpectedCharacter ch pos), pos + 1)
  else if startsNumber ch then
    match previous.bind Letter.repeated with
    | some l => arguments d l pos
    | none => (.error (.unexpectedCharacter ch pos), pos)
  else (.error (.unexpectedCharacter ch pos), pos)

/-- One round: the next command, if the text does not end before it. -/
def round (previous : Option Letter) : Scanner (Option (Command Literal)) := fun pos =>
  let start := passAll d isSeparator pos
  match peek d start with
  | none => (.ok none, start)
  | some ch => (some <$> command d previous ch) start

/-- The curves that are drawn from a place on, and where the cursor is in the end, if the scan ends
within so many rounds, the last one counted. -/
def loop {α : Type} [Scalar α] : Nat → Option Letter → Pen α → Nat →
    Option (Except PathError (List (Curve α)) × Nat)
  | 0, _, _, _ => none
  | rounds + 1, previous, pen, pos =>
    match round d previous pos with
    | (.error e, finish) => some (.error e, finish)
    | (.ok none, finish) => some (.ok [], finish)
    | (.ok (some c), next) =>
      let (pen, curve) := pen.step (c.map Scalar.ofLiteral)
      (loop rounds (some c.letter) pen next).map fun (outcome, finish) =>
        (outcome.map (curve.toList ++ ·), finish)

variable {d} {previous : Option Letter} {ch : Char} {pos : Nat}

/-! ### Progress -/

theorem one_le_parameters {verb : Verb} (h : verb ≠ .close) : 1 ≤ parameters verb := by
  cases verb <;> first | exact absurd rfl h | decide

/-- What the first command takes beyond what any command takes: the coordinates of a move. -/
def firstOnly (previous : Option Letter) : Nat := if previous.isNone then 2 else 0

theorem firstOnly_le {l : Letter} (h : Letter.ofChar? ch = some l)
    (allowed : ¬ (previous.isNone && ch != 'M' && ch != 'm') = true) :
    firstOnly previous ≤ parameters l.verb := by
  unfold firstOnly
  split
  · rename_i first
    have move : ch = 'M' ∨ ch = 'm' := by
      simpa [first, ← or_iff_not_imp_left] using allowed
    rcases move with rfl | rfl <;> cases h <;> exact Nat.le_refl _
  · exact Nat.zero_le _

/-- A command takes a byte that is no separator: its letter, or its first parameter if it has no
letter. -/
theorem forward_command (seen : peek d pos = some ch) (solid : isSeparator ch = false) :
    Forward d pos (firstOnly previous + 1) (command d previous ch pos) := by
  have inside : pos < d.utf8ByteSize := lt_of_peek (p := fun _ => true) (by rw [seen]; rfl)
  have letter := ahead_of_peek seen
  rw [solid] at letter
  unfold command
  split
  · split
    · exact ⟨Nat.le_succ _, inside, nofun⟩
    · rename_i allowed
      split
      · rename_i l found
        have after := advances_arguments l (pos + 1) inside
        have many := firstOnly_le found allowed
        refine ⟨Nat.le_of_succ_le after.le_cursor, after.cursor_le, fun ok => ?_⟩
        have passed := after.passed ok
        simp only [Bool.false_eq_true, if_false] at letter
        omega
      · exact ⟨Nat.le_succ _, inside, nofun⟩
  · split
    · split
      · rename_i l found
        obtain ⟨m, rfl, repeats⟩ := Option.bind_eq_some_iff.mp found
        exact (advances_arguments l pos (Nat.le_of_lt inside)).mono
          (one_le_parameters (verb_ne_close_of_repeated repeats))
      · exact ⟨Nat.le_refl _, Nat.le_of_lt inside, nofun⟩
    · exact ⟨Nat.le_refl _, Nat.le_of_lt inside, nofun⟩

theorem isSeparator_of_peek (h : peek d (passAll d isSeparator pos) = some ch) :
    isSeparator ch = false := by
  rw [peek_eq, rest_passAll] at h
  cases left : (rest d pos).dropWhile isSeparator with
  | nil =>
    rw [left] at h
    cases h
  | cons c tail =>
    rw [left] at h
    cases h
    exact isSeparator_of_skip left

theorem round_of_none (h : peek d (passAll d isSeparator pos) = none) :
    round d previous pos = (.ok none, passAll d isSeparator pos) := by
  simp only [round, h]

theorem round_of_some (h : peek d (passAll d isSeparator pos) = some ch) :
    round d previous pos =
      ((command d previous ch (passAll d isSeparator pos)).1.map some,
        (command d previous ch (passAll d isSeparator pos)).2) := by
  simp only [round, h]
  exact map_apply _ _ _

/-- A round stays within the text, and unless it is the last one it takes a byte that is no
separator. -/
theorem forward_round (previous : Option Letter) (inside : pos ≤ d.utf8ByteSize) :
    pos ≤ (round d previous pos).2 ∧ (round d previous pos).2 ≤ d.utf8ByteSize ∧
      ∀ c, (round d previous pos).1 = .ok (some c) →
        ahead d (round d previous pos).2 + (firstOnly previous + 1) ≤ ahead d pos := by
  have start := le_passAll (d := d) isSeparator pos
  cases seen : peek d (passAll d isSeparator pos) with
  | none =>
    rw [round_of_none seen]
    exact ⟨start, passAll_le inside, fun c ok => absurd (Except.ok.inj ok) nofun⟩
  | some ch =>
    obtain ⟨le_cursor, cursor_le, passed⟩ :=
      @forward_command d previous ch _ seen (isSeparator_of_peek seen)
    rw [round_of_some seen]
    refine ⟨Nat.le_trans start le_cursor, cursor_le, fun c ok => ?_⟩
    obtain ⟨_, read, -⟩ := Outcome.map_eq_ok_iff.mp ok
    rw [← ahead_passAll d pos]
    exact passed read

/-! ### Between characters -/

theorem isAscii_of_startsNumber {c : Char} (h : startsNumber c = true) : Text.IsAscii c := by
  simp only [startsNumber, Bool.or_eq_true, beq_iff_eq] at h
  rcases h with ((digit | rfl) | rfl) | rfl
  · exact isAscii_of_isDigit digit
  all_goals decide

/-- A command is the one that the reader reads. -/
theorem matches_command {read after : List Char} {c : Char} (previous : Option Letter)
    (h : d.toList = read ++ c :: after) :
    Matches d (PathData.command d.toList previous c after)
      (command d previous (leadByte c) (Text.byteSize read)) := by
  have unexpected (finish : Nat) :
      Matches d (unexpected d.toList c after : Except _ (Command Literal × _))
        (.error (.unexpectedCharacter (leadByte c) (Text.byteSize read)), finish) := by
    rw [PathData.unexpected, h, Text.offset_append]
    exact .error _ _
  unfold PathData.command command
  by_cases ascii : Text.IsAscii c
  · rw [leadByte_of_isAscii ascii] at unexpected ⊢
    split
    · split
      · exact .error _ _
      · cases Letter.ofChar? c with
        | none => exact unexpected _
        | some l =>
          have parts := h
          rw [List.append_cons] at parts
          dsimp only
          rw [byteSize_succ read ascii]
          exact mirrors_arguments l _ _ parts
    · split
      · cases previous.bind Letter.repeated with
        | none => exact unexpected _
        | some l => exact mirrors_arguments l _ _ h
      · exact unexpected _
  · -- Neither the character nor the byte that it begins with begins a command.
    have beyond : ¬ Text.IsAscii (leadByte c) := mt isAscii_of_leadByte ascii
    rw [if_neg (mt isAscii_of_isAlpha ascii), if_neg (mt isAscii_of_startsNumber ascii),
      if_neg (mt isAscii_of_isAlpha beyond), if_neg (mt isAscii_of_startsNumber beyond)]
    exact unexpected _

/-- A round does what the reader of commands does next. -/
theorem round_byteSize {kept cs : List Char} (previous : Option Letter)
    (h : d.toList = kept ++ cs) :
    match skipSeparators cs with
    | [] => ∃ finish, round d previous (Text.byteSize kept) = (.ok none, finish)
    | c :: after =>
      Matches d ((PathData.command d.toList previous c after).map fun p => (some p.1, p.2))
        (round d previous (Text.byteSize kept)) := by
  obtain ⟨read, parts, start⟩ := exists_skipped h
  generalize skipSeparators cs = tail at parts
  cases tail with
  | nil => exact ⟨_, round_of_none (start ▸ peek_end parts)⟩
  | cons c after =>
    have same := matches_command previous parts
    dsimp only
    rw [round_of_some (start ▸ peek_byteSize parts), start]
    generalize PathData.command d.toList previous c after = reader,
      command d previous (leadByte c) (Text.byteSize read) = scanner at same
    cases same with
    | ok parts => exact .ok parts
    | error e finish => exact .error e finish

end Rounds

/-! ## The scan -/

section Scan

variable {α : Type} [Scalar α] {d : String}

/-- The reader of commands, one command at a time. -/
theorem commands_eq (source : List Char) (previous : Option Letter) (cs : List Char) :
    commands source previous cs =
      match skipSeparators cs with
      | [] => .ok []
      | c :: after =>
        match PathData.command source previous c after with
        | .error e => .error e
        | .ok (cmd, after) => (commands source (some cmd.letter) after).map (cmd :: ·) := by
  rw [commands]
  split
  · rename_i skipped
    rw [skipped]
  · rename_i skipped
    simp only [skipped]
    split
    · rename_i read
      rw [read]
    · rename_i read
      rw [read]

/-- The scan ends if there are rounds enough for the bytes ahead that are no separators, of which
the first command takes three. It draws what the reader's commands draw. -/
theorem loop_eq {rounds : Nat} {previous : Option Letter} {pen : Pen α} {kept cs : List Char}
    (h : d.toList = kept ++ cs)
    (enough : ahead d (Text.byteSize kept) < rounds + firstOnly previous) (one : 1 ≤ rounds) :
    ∃ finish ≤ d.utf8ByteSize, loop d rounds previous pen (Text.byteSize kept) =
      some ((commands d.toList previous cs).map fun cmds =>
        pen.trace (cmds.map (Command.map Scalar.ofLiteral)), finish) := by
  -- The induction is on the rounds. The cursor is between two characters when one begins, and after
  -- it fewer bytes are ahead.
  induction rounds generalizing previous pen kept cs with
  | zero => exact absurd one (Nat.not_succ_le_zero 0)
  | succ rounds ih =>
    obtain ⟨-, inside, progress⟩ := forward_round previous (byteSize_le h)
    have next := round_byteSize previous h
    rw [commands_eq, loop]
    generalize skipSeparators cs = tail at next
    cases tail with
    | nil =>
      obtain ⟨finish, same⟩ := next
      rw [same] at inside ⊢
      exact ⟨finish, inside, rfl⟩
    | cons c after =>
      dsimp only at next ⊢
      generalize round d previous (Text.byteSize kept) = scanned at *
      cases read : PathData.command d.toList previous c after with
      | error e =>
        rw [read] at next
        cases next with
        | error _ finish => exact ⟨finish, inside, rfl⟩
      | ok p =>
        obtain ⟨cmd, after⟩ := p
        rw [read] at next
        cases next with
        | @ok _ read _ parts =>
          have passed := progress cmd rfl
          dsimp only at passed
          have fewer : ahead d (Text.byteSize read) < rounds := by omega
          obtain ⟨finish, within, same⟩ := @ih (some cmd.letter)
            (pen.step (cmd.map Scalar.ofLiteral)).1 read after parts fewer (Nat.zero_lt_of_lt fewer)
          refine ⟨finish, within, ?_⟩
          dsimp only
          rw [same, Option.map_some]
          cases commands d.toList (some cmd.letter) after <;> rfl

/-- Each round but the last one draws at most one curve. -/
theorem length_lt_of_loop {rounds finish pos : Nat} {previous : Option Letter} {pen : Pen α}
    {cs : List (Curve α)} (h : loop d rounds previous pen pos = some (.ok cs, finish)) :
    cs.length < rounds := by
  induction rounds generalizing previous pen pos cs with
  | zero => cases h
  | succ rounds ih =>
    rw [loop] at h
    generalize round d previous pos = result at h
    match result, h with
    | (.error e, _), h => cases h
    | (.ok none, _), h =>
      cases h
      exact Nat.succ_pos rounds
    | (.ok (some c), next), h =>
      obtain ⟨⟨outcome, last⟩, further, same⟩ := Option.map_eq_some_iff.mp h
      obtain ⟨drawn, rfl⟩ := Prod.mk.inj same
      obtain ⟨rest, rfl, rfl⟩ := Outcome.map_eq_ok_iff.mp drawn
      rw [List.length_append, Nat.add_comm]
      exact Nat.add_lt_add_of_lt_of_le (ih further) Option.length_toList_le

/-- Whatever the text is and wherever the cursor stands, a round ends within the text, and if it
does not end the scan, it takes a byte that is no separator. So the scan ends after as many rounds
as there are bytes at most, or after one if there are none, with what the reader reads; and it has
drawn one curve a byte at most. -/
theorem loop_ends (d : String) :
    (∀ (previous : Option Letter) (pos : Nat), pos ≤ d.utf8ByteSize →
      pos ≤ (round d previous pos).2 ∧ (round d previous pos).2 ≤ d.utf8ByteSize ∧
      ∀ c, (round d previous pos).1 = .ok (some c) → ∃ k ch,
        pos ≤ k ∧ k < (round d previous pos).2 ∧ peek d k = some ch ∧ isSeparator ch = false) ∧
    (∃ finish ≤ d.utf8ByteSize,
      loop d (max 1 d.utf8ByteSize) none (Pen.fresh : Pen α) 0 = some (curves d, finish)) ∧
    ∀ cs : List (Curve α), curves d = .ok cs → cs.length ≤ d.utf8ByteSize := by
  have few := ahead_le d 0
  have enough : ahead d 0 < max 1 d.utf8ByteSize + firstOnly none := by
    show ahead d 0 < max 1 d.utf8ByteSize + 2
    omega
  have parts : d.toList = [] ++ d.toList := rfl
  obtain ⟨finish, within, ends⟩ :=
    @loop_eq α _ d (max 1 d.utf8ByteSize) none Pen.fresh [] _ parts enough (Nat.le_max_left _ _)
  have ends : loop d (max 1 d.utf8ByteSize) none (Pen.fresh : Pen α) 0 = some (curves d, finish) :=
    ends
  refine ⟨fun previous pos inside => ?_, ⟨finish, within, ends⟩, fun cs drawn => ?_⟩
  · obtain ⟨ordered, inside, progress⟩ := forward_round previous inside
    refine ⟨ordered, inside, fun c ok => exists_peek_of_ahead_lt ordered ?_⟩
    have passed := progress c ok
    omega
  · rw [drawn] at ends
    have fewer := length_lt_of_loop ends
    omega

/-- A line for which no letter is written, after a move. -/
theorem loop_ends_repeated :
    4 ≤ "M1 1-2.5.5z".utf8ByteSize ∧
      (round "M1 1-2.5.5z" (some ⟨.moveTo, false⟩) 4).1 =
        .ok (some ⟨false, .lineTo ⟨.decimal true 25 (-1), .decimal false 5 (-1)⟩⟩) ∧
      (∃ k ch, 4 ≤ k ∧ k < (round "M1 1-2.5.5z" (some ⟨.moveTo, false⟩) 4).2 ∧
        peek "M1 1-2.5.5z" k = some ch ∧ isSeparator ch = false) ∧
      ∃ finish ≤ "M1 1-2.5.5z".utf8ByteSize,
        loop "M1 1-2.5.5z" (max 1 "M1 1-2.5.5z".utf8ByteSize) none (Pen.fresh : Pen Float) 0 =
          some (curves "M1 1-2.5.5z", finish) := by
  have inside : 4 ≤ "M1 1-2.5.5z".utf8ByteSize := by decide +kernel
  have line : (round "M1 1-2.5.5z" (some ⟨.moveTo, false⟩) 4).1 =
      .ok (some ⟨false, .lineTo ⟨.decimal true 25 (-1), .decimal false 5 (-1)⟩⟩) :=
    Outcome.toOption_eq_some_iff.mp (by decide +kernel)
  obtain ⟨progress, ends, -⟩ := loop_ends (α := Float) "M1 1-2.5.5z"
  exact ⟨inside, line, (progress _ 4 inside).2.2 _ line, ends⟩

end Scan

end LaserCut.PathData.Scanner
