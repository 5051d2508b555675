import LaserCut.Text.Fields
import LaserCut.Toml.Token

/-!
# TOML documents

* `value?`: a value, with arrays and inline tables nested to a limit;
* `line?`: what one line does to the document so far;
* `Table.read?`: the table of a document, if all of it is well formed and nothing is defined twice.
-/

namespace LaserCut.Toml

/-- How deep arrays and inline tables may be nested. -/
def maxNesting : Nat := 79

/-- The text after blanks, comments and line breaks, with `fuel` for them. -/
def skipLines : (fuel : Nat) → List Char → List Char
  | 0, cs => cs
  | fuel + 1, cs =>
    let cs := skipComment (skipBlanks cs)
    match newline? cs with
    | some cs => skipLines fuel cs
    | none => cs

/-- The text after blanks, comments and line breaks. -/
def skipTrivia (cs : List Char) : List Char := skipLines (cs.length + 1) cs

section Containers

variable (element : List Char → Option (Value × List Char))

/-- The elements of an array, from the text after its bracket, with `fuel` for them. A comma may
follow the last one. -/
def arrayElements : (fuel : Nat) → List Char → Option (List Value × List Char)
  | 0, _ => none
  | fuel + 1, cs =>
    match skipTrivia cs with
    | ']' :: rest => some ([], rest)
    | cs => do
      let (v, rest) ← element cs
      match skipTrivia rest with
      | ',' :: rest =>
        let (vs, rest) ← arrayElements fuel rest
        return (v :: vs, rest)
      | ']' :: rest => return ([v], rest)
      | _ => none

/-- The entries of an inline table added to those before, from the text in front of a key, with
`fuel` for them. -/
def inlineEntries (t : Table) : (fuel : Nat) → List Char → Option (Table × List Char)
  | 0, _ => none
  | fuel + 1, cs => do
    let (path, key, rest) ← key? cs
    let rest ← character? '=' rest
    let (v, rest) ← element (skipBlanks rest)
    let t ← t.assign path key v
    match skipBlanks rest with
    | ',' :: rest => inlineEntries t fuel rest
    | '\x7d' :: rest => return (t, rest)
    | _ => none

/-- An inline table, from the text after its brace. -/
def inlineTable (cs : List Char) : Option (Table × List Char) :=
  match skipBlanks cs with
  | '\x7d' :: rest => some (Table.empty .defined, rest)
  | cs => inlineEntries element (Table.empty .defined) (cs.length + 1) cs

end Containers

/-- A value that holds no other. -/
def simpleValue? (cs : List Char) : Option (Value × List Char) :=
  match cs with
  | 't' :: 'r' :: 'u' :: 'e' :: rest => some (.boolean true, rest)
  | 'f' :: 'a' :: 'l' :: 's' :: 'e' :: rest => some (.boolean false, rest)
  | cs =>
    match string? cs with
    | some (s, rest) => some (.string (String.ofList s), rest)
    | none =>
      match date? cs with
      | some rest => some (.date, rest)
      | none => number? cs

/-- A value with at most so many arrays and inline tables one in another. -/
def value? : (nesting : Nat) → List Char → Option (Value × List Char)
  | 0, cs => simpleValue? cs
  | nesting + 1, cs =>
    match cs with
    | '[' :: rest =>
      (arrayElements (value? nesting) (rest.length + 1) rest).map fun (vs, rest) =>
        (.array vs, rest)
    | '\x7b' :: rest =>
      (inlineTable (value? nesting) rest).map fun (t, rest) => (.inlineTable t, rest)
    | cs => simpleValue? cs

/-- A document read in part: its root, and the path of the table that lines add to. -/
structure Progress where
  root : Table
  current : List String

/-- The text after the end of a line, which may have a comment. -/
def lineEnd? (cs : List Char) : Option (List Char) :=
  match skipComment (skipBlanks cs) with
  | [] => some []
  | cs => newline? cs

/-- What a line does that is not empty, and the text after it. -/
def line? (p : Progress) (cs : List Char) : Option (Progress × List Char) :=
  match cs with
  | '[' :: '[' :: rest => do
    let (path, key, rest) ← key? rest
    let rest ← character? ']' rest
    let rest ← character? ']' rest
    let root ← p.root.addElement path key
    return (⟨root, path ++ [key]⟩, ← lineEnd? rest)
  | '[' :: rest => do
    let (path, key, rest) ← key? rest
    let rest ← character? ']' rest
    let root ← p.root.declare path key
    return (⟨root, path ++ [key]⟩, ← lineEnd? rest)
  | cs => do
    let (path, key, rest) ← key? cs
    let rest ← character? '=' rest
    let (v, rest) ← value? maxNesting (skipBlanks rest)
    let root ← p.root.alter .implied (fun t => t.assign path key v) p.current
    return (⟨root, p.current⟩, ← lineEnd? rest)

/-- The document with its remaining lines, at most `fuel` of them. -/
def lines? (p : Progress) : (fuel : Nat) → List Char → Option Progress
  | 0, _ => none
  | fuel + 1, cs =>
    match skipTrivia cs with
    | [] => some p
    | cs => do
      let (p, rest) ← line? p cs
      lines? p fuel rest

/-- The table of a document. -/
def Table.read? (document : String) : Option Table :=
  let cs := Text.dropByteOrderMark document.toList
  (lines? ⟨Table.empty .defined, []⟩ (cs.length + 1) cs).map Progress.root

end LaserCut.Toml
