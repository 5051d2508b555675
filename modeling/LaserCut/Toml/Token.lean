import LaserCut.Binary64
import LaserCut.Text.Digits
import LaserCut.Toml.Table

/-!
# TOML tokens

Strings, keys, numbers and dates. Each reader gives what it read and the text after it.
-/

namespace LaserCut.Toml

def isBlank (c : Char) : Bool := c == ' ' || c == '\t'

/-- Allowed in comments and strings: the tab, printable ASCII and everything beyond ASCII. -/
def isPlain (c : Char) : Bool := c == '\t' || (' ' ≤ c && c ≤ '~') || '\x7f' < c

def skipBlanks (cs : List Char) : List Char := cs.dropWhile isBlank

/-- The text after a line break, if it begins with one. -/
def newline? : List Char → Option (List Char)
  | '\n' :: cs => some cs
  | '\r' :: '\n' :: cs => some cs
  | _ => none

/-- The text after a comment, if it begins with one. -/
def skipComment : List Char → List Char
  | '#' :: cs => cs.dropWhile isPlain
  | cs => cs

/-! ## Strings -/

/-- The character that a letter after a backslash stands for. -/
def escape? : Char → Option Char
  | 'b' => some '\x08'
  | 't' => some '\t'
  | 'n' => some '\n'
  | 'f' => some '\x0c'
  | 'r' => some '\r'
  | '"' => some '"'
  | '\\' => some '\\'
  | _ => none

/-- The character with the code that hexadecimal digits write. -/
def charOfHex? (ds : List Char) : Option Char := do
  Text.char? (← Text.digits? 16 Text.hexDigit? ds)

/-- The character of an escape sequence, from the text after its backslash. -/
def escaped? : List Char → Option (Char × List Char)
  | 'u' :: a :: b :: c :: d :: cs => (charOfHex? [a, b, c, d]).map (·, cs)
  | 'U' :: a :: b :: c :: d :: e :: f :: g :: h :: cs =>
    (charOfHex? [a, b, c, d, e, f, g, h]).map (·, cs)
  | c :: cs => (escape? c).map (·, cs)
  | [] => none

/-- A basic string from the text after its quote, with `fuel` for its characters. -/
def basicString : (fuel : Nat) → List Char → Option (List Char × List Char)
  | 0, _ => none
  | _, [] => none
  | fuel + 1, c :: cs =>
    if c = '"' then some ([], cs)
    else if c = '\\' then do
      let (e, cs) ← escaped? cs
      let (s, rest) ← basicString fuel cs
      return (e :: s, rest)
    else if isPlain c then do
      let (s, rest) ← basicString fuel cs
      return (c :: s, rest)
    else none

/-- A literal string from the text after its quote. -/
def literalString (cs : List Char) : Option (List Char × List Char) :=
  let body := cs.takeWhile fun c => isPlain c && c != '\''
  match cs.dropWhile fun c => isPlain c && c != '\'' with
  | '\'' :: rest => some (body, rest)
  | _ => none

/-- How a run of quotes ends a multi-line string, if it does: up to two quotes before the three that
close it belong to the string. -/
def closing? (quote : Char) (cs : List Char) : Option (List Char × List Char) :=
  let run := min 5 (cs.takeWhile (· == quote)).length
  if run < 3 then none else some (List.replicate (run - 3) quote, cs.drop run)

/-- Only blanks stand before the next line break. -/
def lineEnds (cs : List Char) : Bool := (newline? (skipBlanks cs)).isSome

/-- A multi-line basic string from the text after its quotes; `skipping` passes over blanks and line
breaks after a backslash at the end of a line. -/
def multilineBasic : (fuel : Nat) → (skipping : Bool) → List Char → Option (List Char × List Char)
  | 0, _, _ => none
  | _, _, [] => none
  | fuel + 1, skipping, c :: cs =>
    match newline? (c :: cs) with
    | some cs => do
      let (s, rest) ← multilineBasic fuel skipping cs
      return (if skipping then s else '\n' :: s, rest)
    | none =>
      if skipping && isBlank c then multilineBasic fuel true cs
      else
        match closing? '"' (c :: cs) with
        | some result => some result
        | none =>
          if c = '\\' then
            if lineEnds cs then multilineBasic fuel true cs
            else do
              let (e, cs) ← escaped? cs
              let (s, rest) ← multilineBasic fuel false cs
              return (e :: s, rest)
          else if isPlain c then do
            let (s, rest) ← multilineBasic fuel false cs
            return (c :: s, rest)
          else none

/-- A multi-line literal string from the text after its quotes. -/
def multilineLiteral : (fuel : Nat) → List Char → Option (List Char × List Char)
  | 0, _ => none
  | _, [] => none
  | fuel + 1, c :: cs =>
    match newline? (c :: cs) with
    | some cs => do
      let (s, rest) ← multilineLiteral fuel cs
      return ('\n' :: s, rest)
    | none =>
      match closing? '\'' (c :: cs) with
      | some result => some result
      | none =>
        if isPlain c then do
          let (s, rest) ← multilineLiteral fuel cs
          return (c :: s, rest)
        else none

/-- A text without the line break that it may begin with. -/
def dropNewline (cs : List Char) : List Char := (newline? cs).getD cs

/-- A string of one line, from its quote on. -/
def lineString? : List Char → Option (List Char × List Char)
  | '"' :: cs => basicString (cs.length + 1) cs
  | '\'' :: cs => literalString cs
  | _ => none

/-- A string of any form, from its quotes on. -/
def string? : List Char → Option (List Char × List Char)
  | '"' :: '"' :: '"' :: cs => multilineBasic (cs.length + 1) false (dropNewline cs)
  | '\'' :: '\'' :: '\'' :: cs => multilineLiteral (cs.length + 1) (dropNewline cs)
  | cs => lineString? cs

/-! ## Keys -/

def isBareKeyChar (c : Char) : Bool := c.isAlphanum || c == '_' || c == '-'

/-- A key without dots: bare, or a string of one line. -/
def simpleKey? (cs : List Char) : Option (String × List Char) :=
  match lineString? cs with
  | some (s, rest) => some (String.ofList s, rest)
  | none =>
    let key := cs.takeWhile isBareKeyChar
    if key.isEmpty then none else some (String.ofList key, cs.dropWhile isBareKeyChar)

/-- The most parts that a dotted key may have. -/
def maxKeyParts : Nat := 79

/-- The parts of a dotted key, at most `fuel` of them, with blanks around each. -/
def keyParts? : (fuel : Nat) → List Char → Option (List String × List Char)
  | 0, _ => none
  | fuel + 1, cs => do
    let (part, rest) ← simpleKey? (skipBlanks cs)
    match skipBlanks rest with
    | '.' :: rest =>
      let (parts, rest) ← keyParts? fuel rest
      return (part :: parts, rest)
    | rest => return ([part], rest)

/-- A dotted key: the path in front of its last part, that part, and the text after it. -/
def key? (cs : List Char) : Option (List String × String × List Char) := do
  let (parts, rest) ← keyParts? maxKeyParts cs
  let last ← parts.getLast?
  return (parts.dropLast, last, rest)

/-! ## Numbers -/

/-- Digits with single underscores between them. -/
def digitRun? (isDigit : Char → Bool) : List Char → Option (List Char × List Char)
  | [] => none
  | c :: cs => if isDigit c then some (go c cs) else none
where
  /-- The digits from `c` on; an underscore is passed over only in front of a digit. -/
  go (c : Char) : List Char → List Char × List Char
    | '_' :: d :: cs =>
      if isDigit d then
        let (ds, rest) := go d cs
        (c :: ds, rest)
      else ([c], '_' :: d :: cs)
    | d :: cs =>
      if isDigit d then
        let (ds, rest) := go d cs
        (c :: ds, rest)
      else ([c], d :: cs)
    | [] => ([c], [])

/-- The digits of a whole number without needless zeros. -/
def wholeDigits? : List Char → Option (List Char × List Char)
  | '0' :: cs => some (['0'], cs)
  | cs => digitRun? Char.isDigit cs

/-- An exponent, with its sign, if one follows. -/
def exponent? : List Char → Option (List Char × List Char)
  | c :: cs =>
    if c = 'e' ∨ c = 'E' then do
      let (negative, cs) := Literal.readSign cs
      let (ds, rest) ← digitRun? Char.isDigit cs
      return (c :: (if negative then '-' else '+') :: ds, rest)
    else some ([], c :: cs)
  | [] => some ([], [])

/-- The point and digits of a fraction, if one follows. -/
def fraction? : List Char → Option (List Char × List Char)
  | '.' :: cs => (digitRun? Char.isDigit cs).map fun (ds, rest) => ('.' :: ds, rest)
  | cs => some ([], cs)

/-- An integer in the range of 64 bits with a sign. -/
def integer? (n : Int) : Option Value :=
  if -(Nat.pow 2 63 : Nat) ≤ n ∧ n < (Nat.pow 2 63 : Nat) then some (.integer n) else none

/-- A float that does not round to infinity. -/
def finite? (cs : List Char) : Option Value := do
  let l ← Literal.ofChars? cs
  if Binary64.ofLiteral l == Binary64.infinity then none else some (.float l)

/-- A decimal number: an integer unless it has a fraction or an exponent. -/
def decimal? (cs : List Char) : Option (Value × List Char) := do
  let (negative, cs) := Literal.readSign cs
  let (whole, cs) ← wholeDigits? cs
  let (fraction, cs) ← fraction? cs
  let (exponent, cs) ← exponent? cs
  if fraction.isEmpty && exponent.isEmpty then
    let n : Int := Literal.digitsValue whole
    return (← integer? (if negative then -n else n), cs)
  let sign := if negative then ['-'] else []
  return (← finite? (sign ++ whole ++ fraction ++ exponent), cs)

/-- An integer in another base, from the text after `0x`, `0o` or `0b`. -/
def based? (base : Nat) (cs : List Char) : Option (Value × List Char) := do
  let value (c : Char) := (Text.hexDigit? c).filter (· < base)
  let (ds, cs) ← digitRun? (fun c => (value c).isSome) cs
  let n ← Text.digits? base value ds
  return (← integer? n, cs)

/-- A number, words for infinity and for what is not a number included. -/
def number? (cs : List Char) : Option (Value × List Char) :=
  match Literal.readSign cs with
  | (negative, 'i' :: 'n' :: 'f' :: rest) => some (.float (.infinite negative), rest)
  | (_, 'n' :: 'a' :: 'n' :: rest) => some (.float .nan, rest)
  | _ =>
    match cs with
    | '0' :: 'x' :: cs => based? 16 cs
    | '0' :: 'o' :: cs => based? 8 cs
    | '0' :: 'b' :: cs => based? 2 cs
    | cs => decimal? cs

/-! ## Dates -/

/-- A number of exactly so many digits, in a range. -/
def fixedDigits? (count low high : Nat) (cs : List Char) : Option (Nat × List Char) :=
  let ds := cs.take count
  if ds.length = count ∧ ds.all Char.isDigit then
    let n := Literal.digitsValue ds
    if low ≤ n ∧ n ≤ high then some (n, cs.drop count) else none
  else none

def character? (c : Char) : List Char → Option (List Char)
  | d :: cs => if d = c then some cs else none
  | [] => none

def daysInMonth (year month : Nat) : Nat :=
  if month = 2 then
    if year % 4 = 0 ∧ (year % 100 ≠ 0 ∨ year % 400 = 0) then 29 else 28
  else if month ∈ [4, 6, 9, 11] then 30
  else 31

/-- The text after a date. -/
def fullDate? (cs : List Char) : Option (List Char) := do
  let (year, cs) ← fixedDigits? 4 0 9999 cs
  let cs ← character? '-' cs
  let (month, cs) ← fixedDigits? 2 1 12 cs
  let cs ← character? '-' cs
  let (_, cs) ← fixedDigits? 2 1 (daysInMonth year month) cs
  return cs

/-- The text after a time; a minute may have a leap second. -/
def partialTime? (cs : List Char) : Option (List Char) := do
  let (_, cs) ← fixedDigits? 2 0 23 cs
  let cs ← character? ':' cs
  let (_, cs) ← fixedDigits? 2 0 59 cs
  let cs ← character? ':' cs
  let (_, cs) ← fixedDigits? 2 0 60 cs
  match cs with
  | '.' :: d :: rest => if d.isDigit then return rest.dropWhile Char.isDigit else return cs
  | _ => return cs

/-- The text after the offset of a time, if it has one. -/
def skipOffset (cs : List Char) : List Char :=
  match cs with
  | c :: rest =>
    if c = 'Z' ∨ c = 'z' then rest
    else if c = '+' ∨ c = '-' then
      (do
        let (_, rest) ← fixedDigits? 2 0 23 rest
        let rest ← character? ':' rest
        let (_, rest) ← fixedDigits? 2 0 59 rest
        return rest).getD cs
    else cs
  | [] => cs

/-- The text after a date, a time, or both. -/
def date? (cs : List Char) : Option (List Char) :=
  match fullDate? cs with
  | some rest =>
    match rest with
    | c :: time =>
      if c = 'T' ∨ c = 't' ∨ c = ' ' then ((partialTime? time).map skipOffset).or (some rest)
      else some rest
    | [] => some rest
  | none => partialTime? cs

end LaserCut.Toml
