/-!
# Elements

The tree of a document: elements with a local name, a namespace, attributes in order and child
elements in order. Text is not kept, since it draws nothing.
-/

namespace LaserCut

/-- An attribute with its name resolved. Its namespace is absent for a name without a prefix. -/
structure Attribute where
  space : Option String
  name : String
  value : String
deriving DecidableEq, Repr

/-- An element with its name resolved, and everything below it. -/
structure Element where
  name : String
  space : Option String
  attributes : List Attribute
  children : List Element
deriving Inhabited, Repr

namespace Element

/-- The first attribute with the given namespace and name. -/
def attributeIn? (e : Element) (space : Option String) (name : String) : Option String :=
  (e.attributes.find? fun a => a.space == space && a.name == name).map Attribute.value

/-- The first attribute with the given name and no namespace. -/
def attribute? (e : Element) (name : String) : Option String :=
  e.attributeIn? none name

end Element
end LaserCut
