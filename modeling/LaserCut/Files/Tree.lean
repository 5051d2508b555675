import LaserCut.Text.Fields

/-!
# Files

What a program does with files, for any way of doing it, and a tree of files in memory.

* `Access`: reading and writing whole files; a failure comes with its reason;
* `Tree`: files by their place. A directory is there if a file or the working directory is in it;
* `Tree.target`: what a path names. Every part but the last has to lead to a directory;
* `Tree.read`, `Tree.write`: the two operations on a tree.
-/

namespace LaserCut.Files

/-- Reading and writing whole files. -/
structure Access (m : Type → Type) where
  read : (path : String) → m (Except String String)
  write : (path content : String) → m (Except String Unit)

/-- Why a path cannot be used. -/
inductive PathFault
  | notFound
  | notDirectory
  | isDirectory
deriving DecidableEq, Repr

def PathFault.message : PathFault → String
  | notFound => "No such file or directory (os error 2)"
  | notDirectory => "Not a directory (os error 20)"
  | isDirectory => "Is a directory (os error 21)"

/-- Files by their place, which is the names that lead there from the root of all directories, and
the place of the working directory. -/
structure Tree where
  home : List String
  files : List (List String × String)
deriving DecidableEq, Repr

/-- The names in a path. -/
def parts (path : String) : List String :=
  ((Text.split (· == '/') path.toList).filter (!·.isEmpty)).map String.ofList

/-- What a path names. -/
inductive Target
  /-- A directory, since the path ends in `.` or `..` or is the root. -/
  | directory
  /-- The place with a name in a directory that is there; `separated` if a separator follows the
  name, which then has to be that of a directory. -/
  | entry (place : List String) (separated : Bool)
deriving DecidableEq, Repr

namespace Tree

/-- The content of a file. -/
def content? (t : Tree) (place : List String) : Option String :=
  (t.files.find? (·.1 == place)).map (·.2)

/-- A directory: the working directory, or one that it or a file is in. -/
def isDirectory (t : Tree) (place : List String) : Bool :=
  place.isPrefixOf t.home ||
    t.files.any fun (file, _) => place.isPrefixOf file && place.length < file.length

/-- The tree with a file that has the content, in the place that the file had. -/
def put (t : Tree) (place : List String) (content : String) : Tree :=
  if (t.content? place).isSome then
    { t with
      files := t.files.map fun (file, old) =>
        if file == place then (file, content) else (file, old) }
  else { t with files := t.files ++ [(place, content)] }

/-- A tree of files by their paths from the working directory. -/
def ofFiles (home : List String) (files : List (String × String)) : Tree :=
  files.foldl (fun t (path, content) => t.put (home ++ parts path) content) ⟨home, []⟩

/-- The files below the working directory, by their paths from there. -/
def listing (t : Tree) : List (String × String) :=
  t.files.filterMap fun (place, content) =>
    if t.home.isPrefixOf place then
      some ("/".intercalate (place.drop t.home.length), content)
    else none

/-- The directory that one part of a path leads to. The root is above itself. -/
def enter (t : Tree) (directory : List String) (part : String) :
    Except PathFault (List String) :=
  if part = "." then .ok directory
  else if part = ".." then .ok directory.dropLast
  else if t.isDirectory (directory ++ [part]) then .ok (directory ++ [part])
  else .error (if (t.content? (directory ++ [part])).isSome then .notDirectory else .notFound)

/-- What a path names, from the root if it begins with a separator. All parts but the last lead
through directories. -/
def target (t : Tree) (path : String) : Except PathFault Target :=
  match (parts path).reverse with
  | [] => if path.isEmpty then .error .notFound else .ok .directory
  | last :: before => do
    let start := if path.toList.head? = some '/' then [] else t.home
    let directory ← before.reverse.foldlM t.enter start
    return if last = "." ∨ last = ".." then .directory
      else .entry (directory ++ [last]) (path.toList.getLast? == some '/')

/-- The content of the file at a path. -/
def read (t : Tree) (path : String) : Except PathFault String := do
  match ← t.target path with
  | .directory => .error .isDirectory
  | .entry place separated =>
    if t.isDirectory place then .error .isDirectory
    else
      match t.content? place with
      | some content => if separated then .error .notDirectory else .ok content
      | none => .error .notFound

/-- The tree with the content in the file at a path, which is made if need be. No file is made at a
path that a separator ends. -/
def write (t : Tree) (path content : String) : Except PathFault Tree := do
  match ← t.target path with
  | .directory => .error .isDirectory
  | .entry place separated =>
    if separated || t.isDirectory place then .error .isDirectory
    else .ok (t.put place content)

/-- Access to a tree of files. -/
def access : Access (StateM Tree) where
  read path := do
    let t ← get
    return (t.read path).mapError PathFault.message
  write path content := do
    let t ← get
    match t.write path content with
    | .ok t =>
      set t
      return .ok ()
    | .error e => return .error e.message

end Tree
end LaserCut.Files
