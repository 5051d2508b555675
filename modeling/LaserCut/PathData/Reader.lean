import LaserCut.PathData.Command
import LaserCut.Text.Fields

/-!
# Reading path data

Text to commands. Separators (ASCII white space and commas) may stand before any token; a number is
the longest numeral at its place, an arc flag a single digit; a letter may be left out where a
number begins, and then the command before it is repeated; the first command is a move.

* `PathError`: the four ways to fail, with the offset in bytes of the token at fault;
* `parse`: the commands of path data.

Readers are state transformers over what is left of the text. `Consumes` says how many characters a
reader takes at least, which is why the loop ends.
-/

namespace LaserCut.PathData

/-- Why path data is refused. -/
inductive PathError
  | unexpectedCharacter (ch : Char) (offset : Nat)
  | expectedNumber (command : Char) (offset : Nat)
  | invalidFlag (offset : Nat)
  | missingMoveTo (command : Char)
deriving DecidableEq, Repr

def PathError.message : PathError → String
  | unexpectedCharacter ch offset =>
    "Unexpected character '" ++ ch.toString ++ "' at offset " ++ toString offset ++ " in path data"
  | expectedNumber command offset =>
    "Command '" ++ command.toString ++ "' expects a number at offset " ++ toString offset
  | invalidFlag offset =>
    "Invalid arc flag at offset " ++ toString offset ++ ": expected 0 or 1"
  | missingMoveTo command =>
    "Path data must start with a move-to command, found '" ++ command.toString ++ "'"

/-- ASCII white space, without the vertical tab, and the comma. -/
def isSeparator (c : Char) : Bool :=
  c == ' ' || c == '\t' || c == '\n' || c == '\x0c' || c == '\r' || c == ','

def skipSeparators (cs : List Char) : List Char := cs.dropWhile isSeparator

/-- The characters that a number can begin with. -/
def startsNumber (c : Char) : Bool :=
  c.isDigit || c == '-' || c == '+' || c == '.'

/-- The first byte of a character's UTF-8 form, as the character of that code. Offsets count bytes,
and this is the byte at the offset of the character. -/
def leadByte (c : Char) : Char :=
  let n := c.toNat
  if n < 0x80 then c
  else if n < 0x800 then Char.ofNat (0xC0 + n / 0x40)
  else if n < 0x10000 then Char.ofNat (0xE0 + n / 0x1000)
  else Char.ofNat (0xF0 + n / 0x40000)

/-- A reader of path data: a state transformer over the text that is left. -/
abbrev Reader (α : Type) := StateT (List Char) (Except PathError) α

section Readers

variable (source : List Char)

/-- A number, for the command that needs it. -/
def number (command : Char) : Reader Literal := fun cs =>
  let cs := skipSeparators cs
  match Literal.read cs with
  | some (literal, rest) => .ok (literal, rest)
  | none => .error (.expectedNumber command (Text.offset source cs))

/-- An arc flag: one digit, after which nothing is required. -/
def flag : Reader Bool := fun cs =>
  let cs := skipSeparators cs
  match cs with
  | '0' :: rest => .ok (false, rest)
  | '1' :: rest => .ok (true, rest)
  | _ => .error (.invalidFlag (Text.offset source cs))

def point (command : Char) : Reader (Point Literal) := do
  let x ← number source command
  let y ← number source command
  return ⟨x, y⟩

/-- The parameters of a command. -/
def segment (command : Char) : Verb → Reader (Segment Literal)
  | .moveTo => do return .moveTo (← point source command)
  | .lineTo => do return .lineTo (← point source command)
  | .horizontal => do return .horizontal (← number source command)
  | .vertical => do return .vertical (← number source command)
  | .cubic => do
    let c₁ ← point source command
    let c₂ ← point source command
    let p ← point source command
    return .cubic c₁ c₂ p
  | .smoothCubic => do
    let c₂ ← point source command
    let p ← point source command
    return .smoothCubic c₂ p
  | .quadratic => do
    let c ← point source command
    let p ← point source command
    return .quadratic c p
  | .smoothQuadratic => do return .smoothQuadratic (← point source command)
  | .arc => do
    let radii ← point source command
    let rotation ← number source command
    let large ← flag source
    let sweep ← flag source
    let p ← point source command
    return .arc radii rotation large sweep p
  | .close => return .close

/-- The command of a letter, from its parameters. -/
def arguments (l : Letter) : Reader (Command Literal) := do
  return ⟨l.relative, ← segment source l.toChar l.verb⟩

/-- Refuses a text that begins with neither a command nor a number that can stand there. -/
def unexpected {α : Type} (c : Char) (rest : List Char) : Except PathError α :=
  .error (.unexpectedCharacter (leadByte c) (Text.offset source (c :: rest)))

/-- The command that begins with the character `c`, and what is left after it; `previous` is the
letter of the command before it. -/
def command (previous : Option Letter) (c : Char) (rest : List Char) :
    Except PathError (Command Literal × List Char) :=
  if c.isAlpha then
    if previous.isNone && c != 'M' && c != 'm' then .error (.missingMoveTo c)
    else
      match Letter.ofChar? c with
      | some l => arguments source l rest
      | none => unexpected source c rest
  else if startsNumber c then
    match previous.bind Letter.repeated with
    | some l => arguments source l (c :: rest)
    | none => unexpected source c rest
  else unexpected source c rest

end Readers

/-! ## Every command takes at least one character -/

/-- The reader takes at least `n` characters when it succeeds. -/
def Consumes (n : Nat) {α : Type} (reader : Reader α) : Prop :=
  ∀ cs a rest, reader cs = .ok (a, rest) → rest.length + n ≤ cs.length

namespace Consumes

variable {α β : Type}

theorem pure (a : α) : Consumes 0 (Pure.pure a : Reader α) := by
  intro cs b rest h
  have h : (Except.ok (a, cs) : Except PathError (α × List Char)) = .ok (b, rest) := h
  cases h
  exact Nat.le_refl _

theorem bind {m n : Nat} {r : Reader α} {f : α → Reader β} (hr : Consumes m r)
    (hf : ∀ a, Consumes n (f a)) : Consumes (m + n) (r >>= f) := by
  intro cs b rest h
  simp only [Bind.bind, StateT.bind, Except.bind] at h
  split at h
  · simp at h
  · rename_i p hp
    have h₁ := hr _ _ _ hp
    have h₂ := hf _ _ _ _ h
    omega

theorem mono {m n : Nat} {r : Reader α} (h : Consumes n r) (hm : m ≤ n) : Consumes m r :=
  fun cs a rest e => by have := h cs a rest e; omega

end Consumes

variable {source : List Char}

theorem length_skipSeparators (cs : List Char) : (skipSeparators cs).length ≤ cs.length :=
  (List.dropWhile_suffix _).length_le

theorem consumes_number (command : Char) : Consumes 1 (number source command) := by
  intro cs a rest h
  unfold number at h
  dsimp only at h
  split at h
  · rename_i hr
    simp only [Except.ok.injEq, Prod.mk.injEq] at h
    obtain ⟨rfl, rfl⟩ := h
    have h₁ := Literal.length_lt_of_read hr
    have h₂ := length_skipSeparators cs
    omega
  · simp at h

theorem consumes_flag : Consumes 1 (flag source) := by
  intro cs a rest h
  have h₂ := length_skipSeparators cs
  unfold flag at h
  dsimp only at h
  split at h
  · rename_i hr
    rw [hr] at h₂
    simp only [Except.ok.injEq, Prod.mk.injEq] at h
    obtain ⟨-, rfl⟩ := h
    simpa using h₂
  · rename_i hr
    rw [hr] at h₂
    simp only [Except.ok.injEq, Prod.mk.injEq] at h
    obtain ⟨-, rfl⟩ := h
    simpa using h₂
  · simp at h

theorem consumes_point (command : Char) : Consumes 2 (point source command) :=
  .bind (consumes_number command) fun _ => .bind (consumes_number command) fun _ => .pure _

theorem consumes_segment (command : Char) (verb : Verb) :
    Consumes (if verb = .close then 0 else 1) (segment source command verb) := by
  have p : Consumes 2 (point source command) := consumes_point command
  have n : Consumes 1 (number source command) := consumes_number command
  have f : Consumes 1 (flag source) := consumes_flag
  cases verb <;> simp only [segment, reduceCtorEq, if_true, if_false]
  case moveTo => exact (p.bind fun _ => .pure _).mono (by decide)
  case lineTo => exact (p.bind fun _ => .pure _).mono (by decide)
  case horizontal => exact n.bind fun _ => .pure _
  case vertical => exact n.bind fun _ => .pure _
  case cubic => exact (p.bind fun _ => p.bind fun _ => p.bind fun _ => .pure _).mono (by decide)
  case smoothCubic => exact (p.bind fun _ => p.bind fun _ => .pure _).mono (by decide)
  case quadratic => exact (p.bind fun _ => p.bind fun _ => .pure _).mono (by decide)
  case smoothQuadratic => exact (p.bind fun _ => .pure _).mono (by decide)
  case arc =>
    exact (p.bind fun _ => n.bind fun _ => f.bind fun _ => f.bind fun _ => p.bind fun _ =>
      .pure _).mono (by decide)
  case close => exact .pure _

theorem consumes_arguments (l : Letter) :
    Consumes (if l.verb = .close then 0 else 1) (arguments source l) :=
  ((consumes_segment l.toChar l.verb).bind fun _ => .pure _).mono (Nat.le_refl _)

theorem verb_ne_close_of_repeated {l m : Letter} (h : l.repeated = some m) : m.verb ≠ .close := by
  obtain ⟨verb, relative⟩ := l
  cases verb <;> simp [Letter.repeated] at h <;> subst h <;> simp

/-- A command takes at least the character that it begins with. -/
theorem length_lt_of_command {previous : Option Letter} {c : Char} {cs rest : List Char}
    {cmd : Command Literal} (h : command source previous c cs = .ok (cmd, rest)) :
    rest.length < (c :: cs).length := by
  unfold command unexpected at h
  split at h
  · split at h
    · simp at h
    · split at h
      · have := consumes_arguments _ _ _ _ h
        simp only [List.length_cons]
        omega
      · simp at h
  · split at h
    · split at h
      · rename_i l hl
        obtain ⟨p, -, hp⟩ := Option.bind_eq_some_iff.1 hl
        have := consumes_arguments _ _ _ _ h
        rw [if_neg (verb_ne_close_of_repeated hp)] at this
        omega
      · simp at h
    · simp at h

theorem length_lt_of_skip {previous : Option Letter} {c : Char} {cs tail rest : List Char}
    {cmd : Command Literal} (hs : skipSeparators cs = c :: tail)
    (h : command source previous c tail = .ok (cmd, rest)) : rest.length < cs.length := by
  have h₁ := length_lt_of_command h
  have h₂ := length_skipSeparators cs
  rw [hs] at h₂
  omega

/-- The commands of what is left of path data, after the command with the letter `previous`. -/
def commands (source : List Char) (previous : Option Letter) (cs : List Char) :
    Except PathError (List (Command Literal)) :=
  match hs : skipSeparators cs with
  | [] => .ok []
  | c :: rest =>
    match hc : command source previous c rest with
    | .error e => .error e
    | .ok (cmd, rest) =>
      have := length_lt_of_skip hs hc
      (commands source (some cmd.letter) rest).map (cmd :: ·)
termination_by cs.length

/-- The commands that path data spells. -/
def parse (d : String) : Except PathError (List (Command Literal)) :=
  commands d.toList none d.toList

end LaserCut.PathData
