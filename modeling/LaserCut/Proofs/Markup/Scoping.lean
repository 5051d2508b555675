import LaserCut.Markup.Forest
import LaserCut.Proofs.Text.Fields

/-!
# Lexical scoping of names

What the names in a tree of tags mean, by the declarations that they stand under, and that names are
resolved to just that.

* `Bound`: the last declaration of a prefix on the way down to a name;
* `Means`: the namespace of a prefix;
* `Names`: the namespace and local name of a qualified name;
* `Describes`: the element that a tree of tags stands for;
* `describes_iff`: it is the resolved tree, and no other.

A path is the tags from the outermost element down to the one that a name stands in. Its attributes
are read in order, so that the last declaration of a prefix is that of the nearest element, and
within an element the last one.
-/

namespace LaserCut.Markup

/-! ## What names mean -/

/-- The text of an attribute's value: without its references, or as it stands if one of them means
nothing. -/
def IsText (value text : String) : Prop :=
  unescape? value.toList = some text.toList ∨ unescape? value.toList = none ∧ text = value

/-- An attribute of the given name declares the prefix; the empty prefix is that of the default
namespace. -/
def Declares (name pfx : String) : Prop :=
  name = "xmlns" ∧ pfx = "" ∨ name = "xmlns:" ++ pfx

/-- The last declaration of the prefix on the path binds it to the text. -/
def Bound (path : List Tag) (pfx uri : String) : Prop :=
  ∃ before name value after,
    path.flatMap Tag.attributes = before ++ (name, value) :: after ∧
      Declares name pfx ∧ IsText value uri ∧ ∀ a ∈ after, ¬ Declares a.1 pfx

/-- The prefix has a namespace on the path. -/
inductive Means (path : List Tag) : String → String → Prop
  | xml : Means path "xml" xmlNamespace
  | bound {pfx uri : String} : pfx ≠ "xml" → Bound path pfx uri → uri ≠ "" → Means path pfx uri

/-- The namespace of an element whose name has no prefix, if it has one. -/
def IsDefault (path : List Tag) (space : Option String) : Prop :=
  ∀ uri, space = some uri ↔ Means path "" uri

/-- The namespace and the local name of a qualified name; `bare` is the namespace of a name without
a prefix. -/
inductive Names (path : List Tag) (bare : Option String) : String → Option String → String → Prop
  | known {pfx uri name : String} :
    ':' ∉ pfx.toList → Means path pfx uri → Names path bare (pfx ++ ":" ++ name) (some uri) name
  | unknown {pfx name : String} :
    ':' ∉ pfx.toList → (∀ uri, ¬ Means path pfx uri) →
    Names path bare (pfx ++ ":" ++ name) none (pfx ++ ":" ++ name)
  | bare {name : String} : ':' ∉ name.toList → Names path bare name bare name

/-- The attributes of an element, in order and without the declarations. -/
inductive DescribesAttributes (path : List Tag) : List (String × String) → List Attribute → Prop
  | nil : DescribesAttributes path [] []
  | declaration {name pfx value : String} {rest : List (String × String)}
    {attributes : List Attribute} :
    Declares name pfx → DescribesAttributes path rest attributes →
    DescribesAttributes path ((name, value) :: rest) attributes
  | plain {name value localName text : String} {space : Option String}
    {rest : List (String × String)} {attributes : List Attribute} :
    (∀ pfx, ¬ Declares name pfx) → Names path none name space localName → IsText value text →
    DescribesAttributes path rest attributes →
    DescribesAttributes path ((name, value) :: rest) (⟨space, localName, text⟩ :: attributes)

mutual

/-- The element that a tree of tags below a path stands for. -/
inductive Describes : List Tag → RawElement → Element → Prop
  | element {path : List Tag} {tag : Tag} {children : List RawElement} {name : String}
    {default space : Option String} {attributes : List Attribute} {elements : List Element} :
    IsDefault (path ++ [tag]) default → Names (path ++ [tag]) default tag.name space name →
    DescribesAttributes (path ++ [tag]) tag.attributes attributes →
    DescribesAll (path ++ [tag]) children elements →
    Describes path ⟨tag, children⟩ ⟨name, space, attributes, elements⟩

/-- The elements that trees of tags below a path stand for, in order. -/
inductive DescribesAll : List Tag → List RawElement → List Element → Prop
  | nil {path : List Tag} : DescribesAll path [] []
  | cons {path : List Tag} {tree : RawElement} {trees : List RawElement} {e : Element}
    {elements : List Element} :
    Describes path tree e → DescribesAll path trees elements →
    DescribesAll path (tree :: trees) (e :: elements)

end

/-! ## Scopes -/

theorem isText_iff {value text : String} : IsText value text ↔ text = unescaped value := by
  unfold IsText unescaped
  cases unescape? value.toList with
  | none => simp
  | some cs =>
    simp only [Option.some.injEq, reduceCtorEq, false_and, or_false, Option.map_some,
      Option.getD_some]
    rw [eq_comm, ← String.toList_inj, String.toList_ofList]

/-- A value without references is its own text. -/
theorem unescaped_of_not_mem {value : String} (h : '&' ∉ value.toList) :
    unescaped value = value := by
  have plain : ∀ cs : List Char, '&' ∉ cs → unescape? cs = some cs := by
    intro cs
    induction cs with
    | nil => intro _; rw [unescape?]
    | cons c cs ih =>
      intro h
      rw [List.mem_cons, not_or] at h
      rw [unescape?, if_neg (Ne.symm h.1), ih h.2]
      rfl
  rw [unescaped, plain _ h]
  exact String.ofList_toList

theorem cutAt_name {pfx : String} (h : ':' ∉ pfx.toList) (name : String) :
    Text.cutAt ':' (pfx ++ ":" ++ name).toList = some (pfx.toList, name.toList) := by
  rw [String.toList_append, String.toList_append, List.append_assoc]
  exact Text.cutAt_append_cons h name.toList

theorem eq_of_cutAt_name {name : String} {before after : List Char}
    (h : Text.cutAt ':' name.toList = some (before, after)) :
    name = String.ofList before ++ ":" ++ String.ofList after ∧
      ':' ∉ (String.ofList before).toList := by
  obtain ⟨whole, free⟩ := Text.of_cutAt_eq_some h
  rw [← String.toList_inj, String.toList_append, String.toList_append, String.toList_ofList,
    String.toList_ofList, whole, List.append_assoc, String.toList_ofList]
  exact ⟨rfl, free⟩

theorem declared?_eq_some_iff {name pfx : String} :
    declared? name = some pfx ↔ Declares name pfx := by
  unfold declared? Declares
  constructor
  · intro h
    split at h
    · rename_i whole
      cases h
      exact .inl ⟨whole, rfl⟩
    · split at h
      · rename_i before after cut
        split at h
        · rename_i xmlns
          cases h
          rw [(eq_of_cutAt_name cut).1, xmlns]
          exact .inr rfl
        · cases h
      · cases h
  · rintro (⟨rfl, rfl⟩ | rfl)
    · rfl
    · have longer : "xmlns:" ++ pfx ≠ "xmlns" := by
        intro same
        have := congrArg (fun s => s.toList.length) same
        simp at this
      have cut : Text.cutAt ':' ("xmlns:" ++ pfx).toList = some ("xmlns".toList, pfx.toList) :=
        cutAt_name (by decide : ':' ∉ "xmlns".toList) pfx
      rw [if_neg longer, cut]
      show (if String.ofList "xmlns".toList = "xmlns" then some (String.ofList pfx.toList)
        else none) = some pfx
      rw [String.ofList_toList, String.ofList_toList, if_pos rfl]

/-- The prefix that an attribute declares, with its namespace. -/
def declaration? (a : String × String) : Option (String × String) :=
  (declared? a.1).map fun pfx => (pfx, unescaped a.2)

theorem declaration?_eq_some_iff {name value pfx uri : String} :
    declaration? (name, value) = some (pfx, uri) ↔ Declares name pfx ∧ IsText value uri := by
  rw [isText_iff, ← declared?_eq_some_iff, declaration?, Option.map_eq_some_iff]
  constructor
  · rintro ⟨_, declares, same⟩
    cases same
    exact ⟨declares, rfl⟩
  · rintro ⟨declares, rfl⟩
    exact ⟨pfx, declares, rfl⟩

theorem extend_eq (tag : Tag) (scope : Scope) :
    tag.extend scope = (tag.attributes.filterMap declaration?).reverse ++ scope := by
  unfold Tag.extend
  induction tag.attributes generalizing scope with
  | nil => rfl
  | cons a attributes ih =>
    obtain ⟨name, value⟩ := a
    rw [List.foldl_cons, ih, List.filterMap_cons, declaration?]
    dsimp only
    cases declared? name with
    | none => rfl
    | some pfx => simp

/-- The scope at the end of a path. -/
def scopeOf (path : List Tag) : Scope := path.foldl (fun scope tag => tag.extend scope) []

theorem scopeOf_append_singleton (path : List Tag) (tag : Tag) :
    scopeOf (path ++ [tag]) = tag.extend (scopeOf path) := by
  rw [scopeOf, List.foldl_append]
  rfl

/-- A scope is the declarations on the path, read backwards. -/
theorem scopeOf_eq (path : List Tag) :
    scopeOf path = ((path.flatMap Tag.attributes).reverse.filterMap declaration?) := by
  have general (scope : Scope) : path.foldl (fun scope tag => tag.extend scope) scope =
      (path.flatMap Tag.attributes).reverse.filterMap declaration? ++ scope := by
    induction path generalizing scope with
    | nil => rfl
    | cons tag path ih =>
      rw [List.foldl_cons, ih, extend_eq, List.flatMap_cons, List.reverse_append,
        List.filterMap_append, List.append_assoc, ← List.filterMap_reverse]
  rw [scopeOf, general, List.append_nil]

theorem any_declaration?_iff {a : String × String} {pfx : String} :
    (declaration? a).any (·.1 == pfx) = true ↔ Declares a.1 pfx := by
  rw [← declared?_eq_some_iff, declaration?]
  cases declared? a.1 <;> simp

/-- The first declaration in the scope is the last one on the path. -/
theorem find?_scopeOf_eq_some_iff {path : List Tag} {pfx other uri : String} :
    (scopeOf path).find? (·.1 == pfx) = some (other, uri) ↔ other = pfx ∧ Bound path pfx uri := by
  rw [scopeOf_eq, List.find?_filterMap, Option.bind_eq_some_iff]
  constructor
  · rintro ⟨⟨name, value⟩, first, declaration⟩
    obtain ⟨declares, after, before, attributes, silent⟩ := List.find?_eq_some_iff_append.mp first
    obtain ⟨stated, text⟩ := declaration?_eq_some_iff.mp declaration
    rw [any_declaration?_iff] at declares
    have same : some other = some pfx :=
      (declared?_eq_some_iff.mpr stated).symm.trans (declared?_eq_some_iff.mpr declares)
    refine ⟨Option.some.inj same, before.reverse, name, value, after.reverse, ?_, declares, text,
      ?_⟩
    · rw [← List.reverse_inj, attributes]
      simp
    · intro a ha declares
      have := silent a (List.mem_reverse.mp ha)
      rw [any_declaration?_iff.mpr declares] at this
      cases this
  · rintro ⟨rfl, before, name, value, after, attributes, declares, text, silent⟩
    refine ⟨(name, value), List.find?_eq_some_iff_append.mpr
      ⟨any_declaration?_iff.mpr declares, after.reverse, before.reverse, ?_, fun a ha => ?_⟩,
      declaration?_eq_some_iff.mpr ⟨declares, text⟩⟩
    · rw [attributes]
      simp
    · have := mt any_declaration?_iff.mp (silent a (List.mem_reverse.mp ha))
      rw [Bool.not_eq_true] at this
      rw [this, Bool.not_false]

theorem means_iff {path : List Tag} {pfx uri : String} (h : pfx ≠ "xml") :
    Means path pfx uri ↔ Bound path pfx uri ∧ uri ≠ "" := by
  constructor
  · intro means
    cases means with
    | xml => exact absurd rfl h
    | bound _ bound used => exact ⟨bound, used⟩
  · rintro ⟨bound, used⟩
    exact .bound h bound used

/-- Looking a prefix up finds its namespace. -/
theorem lookup_scopeOf_eq_some_iff {path : List Tag} {pfx uri : String} :
    lookup (scopeOf path) pfx = some uri ↔ Means path pfx uri := by
  have bound_iff (text : String) : Bound path pfx text ↔
      (scopeOf path).find? (·.1 == pfx) = some (pfx, text) := by
    rw [find?_scopeOf_eq_some_iff, eq_self, true_and]
  unfold lookup
  split
  · rename_i xml
    subst xml
    constructor
    · rintro ⟨⟩
      exact .xml
    · intro means
      cases means with
      | xml => rfl
      | bound other => exact absurd rfl other
  · rename_i other
    rw [means_iff other, bound_iff]
    split
    · rename_i text declaration
      obtain ⟨rfl, -⟩ := find?_scopeOf_eq_some_iff.mp declaration
      rw [declaration]
      by_cases empty : text = ""
      · subst empty
        simp
      · simp only [String.isEmpty_iff, empty, if_false, Option.some.injEq, Prod.mk.injEq, true_and]
        constructor
        · rintro rfl
          exact ⟨rfl, empty⟩
        · exact And.left
    · rename_i undeclared
      rw [undeclared]
      simp

/-! ## Names -/

section Qualified

variable {scope : Scope} {bare : Option String} {pfx name : String}

theorem qualified_of_lookup_eq_some (h : ':' ∉ pfx.toList) {uri : String}
    (found : lookup scope pfx = some uri) :
    qualified scope bare (pfx ++ ":" ++ name) = (some uri, name) := by
  rw [qualified, cutAt_name h]
  dsimp only
  rw [String.ofList_toList, String.ofList_toList, found]

theorem qualified_of_lookup_eq_none (h : ':' ∉ pfx.toList) (missing : lookup scope pfx = none) :
    qualified scope bare (pfx ++ ":" ++ name) = (none, pfx ++ ":" ++ name) := by
  rw [qualified, cutAt_name h]
  dsimp only
  rw [String.ofList_toList, missing]

theorem qualified_of_bare (h : ':' ∉ name.toList) : qualified scope bare name = (bare, name) := by
  rw [qualified, Text.cutAt_eq_none_iff.mpr h]

end Qualified

/-- A name has no prefix, or is cut at its first colon. -/
theorem bare_or_prefixed (name : String) :
    ':' ∉ name.toList ∨ ∃ pfx rest, name = pfx ++ ":" ++ rest ∧ ':' ∉ pfx.toList := by
  cases cut : Text.cutAt ':' name.toList with
  | none => exact .inl (Text.cutAt_eq_none_iff.mp cut)
  | some parts => exact .inr ⟨_, _, eq_of_cutAt_name cut⟩

theorem names_iff {path : List Tag} {bare space : Option String} {name localName : String} :
    Names path bare name space localName ↔
      qualified (scopeOf path) bare name = (space, localName) := by
  have missing {pfx : String} : lookup (scopeOf path) pfx = none ↔ ∀ uri, ¬ Means path pfx uri := by
    simp only [← lookup_scopeOf_eq_some_iff, Option.eq_none_iff_forall_ne_some, ne_eq]
  constructor
  · intro names
    cases names with
    | known free means =>
      exact qualified_of_lookup_eq_some free (lookup_scopeOf_eq_some_iff.mpr means)
    | unknown free none => exact qualified_of_lookup_eq_none free (missing.mpr none)
    | bare free => exact qualified_of_bare free
  · intro resolved
    rcases bare_or_prefixed name with free | ⟨pfx, rest, rfl, free⟩
    · rw [qualified_of_bare free] at resolved
      cases resolved
      exact .bare free
    · cases found : lookup (scopeOf path) pfx with
      | none =>
        rw [qualified_of_lookup_eq_none free found] at resolved
        cases resolved
        exact .unknown free (missing.mp found)
      | some uri =>
        rw [qualified_of_lookup_eq_some free found] at resolved
        cases resolved
        exact .known free (lookup_scopeOf_eq_some_iff.mp found)

theorem isDefault_iff {path : List Tag} {space : Option String} :
    IsDefault path space ↔ space = lookup (scopeOf path) "" := by
  simp only [IsDefault, ← lookup_scopeOf_eq_some_iff]
  exact ⟨fun h => Option.ext h, fun h uri => by rw [h]⟩

theorem describesAttributes_iff {path : List Tag} {tag : Tag} {attributes : List Attribute} :
    DescribesAttributes path tag.attributes attributes ↔
      attributes = tag.resolvedAttributes (scopeOf path) := by
  unfold Tag.resolvedAttributes
  induction tag.attributes generalizing attributes with
  | nil =>
    constructor
    · rintro ⟨⟩
      rfl
    · rintro rfl
      exact .nil
  | cons a written ih =>
    obtain ⟨name, value⟩ := a
    cases declared : declared? name with
    | some pfx =>
      have declares := declared?_eq_some_iff.mp declared
      rw [List.filter_cons_of_neg (by simp [declared]), ← ih]
      constructor
      · intro h
        cases h with
        | declaration _ rest => exact rest
        | plain free => exact absurd declares (free pfx)
      · exact .declaration declares
    | none =>
      have free (pfx : String) : ¬ Declares name pfx := by
        intro declares
        rw [declared?_eq_some_iff.mpr declares] at declared
        cases declared
      rw [List.filter_cons_of_pos (by simp [declared]), List.map_cons]
      dsimp only
      constructor
      · intro h
        cases h with
        | declaration declares => exact absurd declares (free _)
        | plain _ names text rest =>
          rw [← ih.mp rest, ← isText_iff.mp text, names_iff.mp names]
      · rintro rfl
        exact .plain free (names_iff.mpr rfl) (isText_iff.mpr rfl) (ih.mpr rfl)

/-! ## Trees -/

mutual

/-- A tree of tags stands for the resolved tree and for no other. -/
theorem describes_iff {path : List Tag} {e : Element} :
    (tree : RawElement) → (Describes path tree e ↔ e = tree.resolve (scopeOf path))
  | ⟨tag, children⟩ => by
    rw [RawElement.resolve, ← scopeOf_append_singleton]
    constructor
    · intro h
      cases h with
      | element default names attributes elements =>
        rw [← isDefault_iff.mp default, names_iff.mp names, ← describesAttributes_iff.mp attributes,
          ← (describesAll_iff children).mp elements]
    · rintro rfl
      exact .element (isDefault_iff.mpr rfl) (names_iff.mpr rfl) (describesAttributes_iff.mpr rfl)
        ((describesAll_iff children).mpr rfl)

theorem describesAll_iff {path : List Tag} {elements : List Element} :
    (trees : List RawElement) → (DescribesAll path trees elements ↔
      elements = trees.map (RawElement.resolve (scopeOf path)))
  | [] => by
    constructor
    · rintro ⟨⟩
      rfl
    · rintro rfl
      exact .nil
  | tree :: trees => by
    rw [List.map_cons]
    constructor
    · intro h
      cases h with
      | cons first rest =>
        rw [(describes_iff tree).mp first, (describesAll_iff trees).mp rest]
    · rintro rfl
      exact .cons ((describes_iff tree).mpr rfl) ((describesAll_iff trees).mpr rfl)

end

end LaserCut.Markup
