import LaserCut.Decimal.Literal

/-!
# TOML values and tables

The data of a TOML document, and the rules by which its lines may add to it.

* `Value`, `Table`: the data. A table remembers how it came about, since that decides what may be
  added to it;
* `Table.alter`: a change at the end of a path. Tables on the way are made as needed, and an array
  of tables means its last one;
* `Table.assign`, `Table.declare`, `Table.addElement`: what the lines `a.b = v`, `[a.b]` and
  `[[a.b]]` do. Nothing may be defined twice.
-/

namespace LaserCut.Toml

/-- How a table came about. -/
inductive TableKind
  /-- By a header or by braces. -/
  | defined
  /-- On the way to a deeper header. -/
  | implied
  /-- By a dotted key. -/
  | dotted
deriving DecidableEq, Repr

mutual

inductive Value
  | string (s : String)
  | integer (n : Int)
  | float (l : Literal)
  | boolean (b : Bool)
  | date
  | array (vs : List Value)
  | inlineTable (t : Table)

/-- What a key stands for. -/
inductive Node
  | value (v : Value)
  | table (t : Table)
  | tables (first : Table) (rest : List Table)

inductive Table
  | mk (kind : TableKind) (entries : List (String × Node))

end

namespace Table

def kind : Table → TableKind
  | mk kind _ => kind

def entries : Table → List (String × Node)
  | mk _ entries => entries

def empty (kind : TableKind) : Table := mk kind []

def isEmpty (t : Table) : Bool := t.entries.isEmpty

def get? (t : Table) (key : String) : Option Node :=
  (t.entries.find? (·.1 == key)).map (·.2)

/-- The table with a key that stands for the node, in the place that the key had. -/
def put (t : Table) (key : String) (node : Node) : Table :=
  if t.entries.any (·.1 == key) then
    mk t.kind (t.entries.map fun (k, n) => if k == key then (k, node) else (k, n))
  else mk t.kind (t.entries ++ [(key, node)])

/-- The table with the entries of the other kind. -/
def withKind (t : Table) (kind : TableKind) : Table := mk kind t.entries

/-- A change at the end of a path. With `made` dotted, tables that are already defined are closed
to it. -/
def alter (made : TableKind) (change : Table → Option Table) : List String → Table → Option Table
  | [], t => change t
  | key :: path, t =>
    match t.get? key with
    | none => (alter made change path (empty made)).map fun s => t.put key (.table s)
    | some (.value _) => none
    | some (.table s) =>
      if made = .dotted ∧ s.kind = .defined then none
      else (alter made change path s).map fun s => t.put key (.table s)
    | some (.tables first rest) =>
      match rest.getLast? with
      | none => (alter made change path first).map fun s => t.put key (.tables s [])
      | some last =>
        (alter made change path last).map fun s => t.put key (.tables first (rest.dropLast ++ [s]))

/-- A key set to a value, by a path of dotted keys in front of it. The table at the end of a path
that is not empty has to be a dotted one. -/
def assign (t : Table) (path : List String) (key : String) (v : Value) : Option Table :=
  alter .dotted
    (fun s =>
      if (!path.isEmpty && s.kind != .dotted) || (s.get? key).isSome then none
      else some (s.put key (.value v)))
    path t

/-- A table defined by a header. -/
def declare (t : Table) (path : List String) (key : String) : Option Table :=
  alter .implied
    (fun s =>
      match s.get? key with
      | none => some (s.put key (.table (empty .defined)))
      | some (.table u) =>
        if u.kind = .implied then some (s.put key (.table (u.withKind .defined))) else none
      | _ => none)
    path t

/-- One more table of an array of tables. -/
def addElement (t : Table) (path : List String) (key : String) : Option Table :=
  alter .implied
    (fun s =>
      match s.get? key with
      | none => some (s.put key (.tables (empty .defined) []))
      | some (.tables first rest) =>
        some (s.put key (.tables first (rest ++ [empty .defined])))
      | _ => none)
    path t

end Table
end LaserCut.Toml
