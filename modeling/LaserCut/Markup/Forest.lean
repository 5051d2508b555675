import LaserCut.Markup.Event
import LaserCut.Markup.Element
import LaserCut.Text.Digits

/-!
# From events to elements

* `RawElement`, `forest`: the events as trees, with names as they stand;
* `unescape?`: a text with its references replaced;
* `lookup`: what a prefix means among the declarations in scope, the nearest first;
* `RawElement.resolve`: an element with names resolved in a scope;
* `Element.ofEvents`: the first tree of a document.

A name whose prefix has no meaning stays whole and belongs to no namespace. A prefix bound to the
empty text has no meaning.
-/

namespace LaserCut.Markup

/-! ## Trees of tags -/

/-- A tag with everything below it. -/
structure RawElement where
  tag : Tag
  children : List RawElement
deriving Repr

/-- The trees built so far: finished siblings in the innermost open element, and that element with
its own siblings, all latest first. -/
structure Growth where
  siblings : List RawElement
  opened : List (Tag × List RawElement)

/-- The trees after one more event. -/
def Growth.step (g : Growth) : Event → Growth
  | .opening tag => ⟨[], (tag, g.siblings) :: g.opened⟩
  | .empty tag => ⟨⟨tag, []⟩ :: g.siblings, g.opened⟩
  | .closing _ =>
    match g.opened with
    | [] => g
    | (tag, outer) :: opened => ⟨⟨tag, g.siblings.reverse⟩ :: outer, opened⟩
  | .aside => g

/-- The trees that events describe, unless an element is left open. -/
def forest (events : List Event) : Except MarkupError (List RawElement) :=
  let g := events.foldl Growth.step ⟨[], []⟩
  if g.opened.isEmpty then .ok g.siblings.reverse else .error .unclosedElements

/-! ## References -/

/-- The character with the given code, zero excepted. -/
def charOfCode? (n : Nat) : Option Char := if n = 0 then none else Text.char? n

/-- The character that a reference stands for, by the text between `&` and `;`. -/
def reference? (name : List Char) : Option Char :=
  match name with
  | '#' :: 'x' :: ds => (Text.digits? 16 Text.hexDigit? ds).bind charOfCode?
  | '#' :: ds => (Text.digits? 10 Text.decimalDigit? ds).bind charOfCode?
  | ['l', 't'] => some '<'
  | ['g', 't'] => some '>'
  | ['a', 'm', 'p'] => some '&'
  | ['a', 'p', 'o', 's'] => some '\''
  | ['q', 'u', 'o', 't'] => some '"'
  | _ => none

/-- Not the end of a reference in a value. -/
def isNameChar (c : Char) : Bool := c != ';' && c != '&'

/-- A text with every reference replaced, if all have a meaning. -/
def unescape? (cs : List Char) : Option (List Char) :=
  match cs with
  | [] => some []
  | c :: cs =>
    if c = '&' then
      match h : cs.dropWhile isNameChar with
      | ';' :: rest => do
        have : rest.length < cs.length := by
          have := (List.dropWhile_suffix isNameChar (l := cs)).length_le
          rw [h] at this
          exact this
        let c ← reference? (cs.takeWhile isNameChar)
        let rest ← unescape? rest
        return c :: rest
      | _ => none
    else (unescape? cs).map (c :: ·)
termination_by cs.length

/-- A value with its references replaced; one with a reference that means nothing stays as it is. -/
def unescaped (value : String) : String :=
  ((unescape? value.toList).map String.ofList).getD value

/-! ## Namespaces -/

/-- The declarations in scope, the nearest first: prefixes with their namespaces. The empty prefix
is that of names without one. -/
abbrev Scope := List (String × String)

def xmlNamespace : String := "http://www.w3.org/XML/1998/namespace"

/-- The namespace that a prefix means in a scope. -/
def lookup (scope : Scope) (name : String) : Option String :=
  if name = "xml" then some xmlNamespace
  else
    match scope.find? (·.1 == name) with
    | some (_, uri) => if uri.isEmpty then none else some uri
    | none => none

/-- The prefix that an attribute with the given name declares. -/
def declared? (name : String) : Option String :=
  if name = "xmlns" then some ""
  else
    match Text.cutAt ':' name.toList with
    | some (before, after) =>
      if String.ofList before = "xmlns" then some (String.ofList after) else none
    | none => none

/-- The declarations of a tag in front of those around it, the last one nearest. -/
def Tag.extend (tag : Tag) (scope : Scope) : Scope :=
  tag.attributes.foldl
    (fun scope (name, value) =>
      match declared? name with
      | some declared => (declared, unescaped value) :: scope
      | none => scope)
    scope

/-- The namespace and local name of a qualified name; `bare` is the namespace of a name without a
prefix. -/
def qualified (scope : Scope) (bare : Option String) (name : String) : Option String × String :=
  match Text.cutAt ':' name.toList with
  | some (before, after) =>
    match lookup scope (String.ofList before) with
    | some uri => (some uri, String.ofList after)
    | none => (none, name)
  | none => (bare, name)

/-- The attributes of a tag other than declarations. They take no default namespace. -/
def Tag.resolvedAttributes (tag : Tag) (scope : Scope) : List Attribute :=
  (tag.attributes.filter fun (name, _) => (declared? name).isNone).map fun (name, value) =>
    let (space, name) := qualified scope none name
    ⟨space, name, unescaped value⟩

/-- An element with its names, and those below it, resolved in the scope around it. -/
def RawElement.resolve (scope : Scope) : RawElement → Element
  | ⟨tag, children⟩ =>
    let scope := tag.extend scope
    let (space, name) := qualified scope (lookup scope "") tag.name
    { name
      space
      attributes := tag.resolvedAttributes scope
      children := children.map (resolve scope) }

/-- The first element that events describe, if there is one. -/
def Element.ofEvents (events : List Event) : Except MarkupError (Option Element) :=
  (forest events).map fun trees => trees.head?.map (RawElement.resolve [])

/-- The first element of a document, if there is one. -/
def Element.read (document : String) : Except MarkupError (Option Element) := do
  Element.ofEvents (← Event.read document)

end LaserCut.Markup
