import LaserCut.Text.Fields

/-!
# File names

Paths as text, and the place where a program goes by default: beside the drawing, under its name.

* `Located`: a path cut at its file name, which is the last part other than `.`;
* `stem`, `extension?`: a file name cut at its last dot, unless it begins with that dot;
* `withExtension`, `withName`: a path with another extension or another file name;
* `defaultOutput`: the path of the program for a drawing.
-/

namespace LaserCut.Files

/-- A path as the text before its file name, the name, and the text after it. -/
structure Located where
  before : List Char
  name : List Char
  after : List Char
deriving DecidableEq, Repr

/-- The last part that is not empty and not `.`, by a path written backwards; `after` is the text
behind what is left of the path. -/
def lastPart (after : List Char) : List (List Char) → Option Located
  | [] => none
  | part :: parts =>
    if part.isEmpty || part == ['.'] then lastPart ('/' :: part ++ after) parts
    else
      some ⟨(parts.reverse.map (· ++ ['/'])).flatten, part, after⟩

/-- Where the file name of a path stands. A path that ends in `..` has none. -/
def locate? (path : List Char) : Option Located :=
  match (Text.split (· == '/') path).reverse with
  | [] => none
  | part :: parts =>
    let found :=
      if part.isEmpty || part == ['.'] then lastPart part parts
      else some ⟨(parts.reverse.map (· ++ ['/'])).flatten, part, []⟩
    found.filter (·.name != ['.', '.'])

/-- A file name cut at its last dot; a name that has no dot, or none but its first character, is
all stem. -/
def cutExtension (name : List Char) : List Char × Option (List Char) :=
  let back := name.reverse
  let extension := (back.takeWhile (· != '.')).reverse
  match back.dropWhile (· != '.') with
  | _ :: c :: rest => ((c :: rest).reverse, some extension)
  | _ => (name, none)

def stem (name : List Char) : List Char := (cutExtension name).1

def extension? (name : List Char) : Option (List Char) := (cutExtension name).2

/-- A path up to the stem of its file name, and the extension; a path without a file name stays as
it is. -/
def setExtension (path extension : List Char) : List Char :=
  match locate? path with
  | some p => p.before ++ stem p.name ++ '.' :: extension
  | none => path

/-- A path with another extension. The text of the old one is taken off the end of the path first,
so that of `..x` nothing but `..` is left, which is no file name. -/
def withExtension (path extension : List Char) : List Char :=
  match (locate? path).bind fun p => extension? p.name with
  | some old => setExtension (path.take (path.length - old.length)) extension
  | none => setExtension path extension

/-- A directory as written in front of a file name, without the separators and `.` that it ends in;
it is written backwards. -/
def trimDirectory : List Char → List Char
  | '/' :: c :: rest => trimDirectory (c :: rest)
  | '.' :: '/' :: rest => trimDirectory ('/' :: rest)
  | cs => cs

/-- A name in a directory. -/
def join (directory name : List Char) : List Char :=
  if directory.isEmpty || directory.getLast? == some '/' then directory ++ name
  else directory ++ '/' :: name

/-- A path with another file name, which follows a path that has none. -/
def withName (path name : List Char) : List Char :=
  match locate? path with
  | some p => join (trimDirectory p.before.reverse).reverse name
  | none => join path name

/-- The path of the program for a drawing, or for one layer of it. -/
def defaultOutput (input : String) (layer : Option String) : String :=
  match layer with
  | some layer =>
    let name := ((locate? input.toList).map fun p => stem p.name).getD []
    String.ofList (withName input.toList (name ++ '_' :: layer.toList ++ ".gcode".toList))
  | none => String.ofList (withExtension input.toList "gcode".toList)

end LaserCut.Files
