import LaserCut.Proofs.Markup.Scoping
import LaserCut.Proofs.Markup.Serial

/-!
# Renaming a namespace prefix

A prefix is a bound variable: `xmlns` declarations bind it, and a name with the prefix is bound by
the nearest one. Another prefix in its place, in the declarations and in the names, leaves what the
names mean.

* `Renaming`: one prefix for another;
* `Renaming.name`, `Renaming.key`: the new name of an element, and of an attribute, which may be a
  declaration;
* `Renaming.lookup_scope`: a renamed prefix means in the renamed scope what the old one meant;
* `Renaming.resolve_tree`: a renamed tree is resolved to the same element, if the new prefix is
  fresh and the old one has a namespace wherever it is used (`Renaming.Allows`);
* `Renaming.spellsAll`: renamed events write down the renamed trees.
-/

namespace LaserCut.Markup

/-- The characters that end a name or mean something else in markup, and the colon. -/
def reservedChars : List Char :=
  [' ', '\t', '\r', '\n', ':', '=', '/', '<', '>', '!', '?', '\'', '"']

/-- A namespace prefix that may be declared: the names `xml` and `xmlns` are taken. -/
structure IsPrefix (pfx : String) : Prop where
  ne_empty : pfx ≠ ""
  ne_xml : pfx ≠ "xml"
  ne_xmlns : pfx ≠ "xmlns"
  plain : ∀ c ∈ pfx.toList, c ∉ reservedChars

theorem isPrefix_iff {pfx : String} :
    IsPrefix pfx ↔ pfx ≠ "" ∧ pfx ≠ "xml" ∧ pfx ≠ "xmlns" ∧
      pfx.toList.all (!reservedChars.contains ·) = true := by
  have plain : pfx.toList.all (!reservedChars.contains ·) = true ↔
      ∀ c ∈ pfx.toList, c ∉ reservedChars := by simp
  rw [plain]
  exact ⟨fun h => ⟨h.ne_empty, h.ne_xml, h.ne_xmlns, h.plain⟩,
    fun ⟨empty, xml, xmlns, plain⟩ => ⟨empty, xml, xmlns, plain⟩⟩

instance decidableIsPrefix (pfx : String) : Decidable (IsPrefix pfx) :=
  decidable_of_iff _ isPrefix_iff.symm

theorem IsPrefix.colon_not_mem {pfx : String} (h : IsPrefix pfx) : ':' ∉ pfx.toList :=
  fun mem => h.plain _ mem (by decide)

/-- One prefix for another. -/
structure Renaming where
  old : String
  new : String
  isPrefix_old : IsPrefix old
  isPrefix_new : IsPrefix new

/-- The name has the prefix. -/
def HasPrefix (pfx name : String) : Prop := ∃ rest, name = pfx ++ ":" ++ rest

theorem hasPrefix_iff {pfx name : String} :
    HasPrefix pfx name ↔ (pfx ++ ":").toList <+: name.toList := by
  constructor
  · rintro ⟨rest, rfl⟩
    exact ⟨rest.toList, String.toList_append.symm⟩
  · rintro ⟨rest, same⟩
    exact ⟨String.ofList rest, String.toList_inj.mp (by simp [← same])⟩

instance decidableHasPrefix (pfx name : String) : Decidable (HasPrefix pfx name) :=
  decidable_of_iff _ hasPrefix_iff.symm

/-- The prefix stands before the name of the element or of an attribute. -/
def Tag.Uses (tag : Tag) (pfx : String) : Prop :=
  HasPrefix pfx tag.name ∨ ∃ a ∈ tag.attributes, HasPrefix pfx a.1

/-- The prefix stands before a name or in a declaration. -/
def Tag.Mentions (tag : Tag) (pfx : String) : Prop :=
  tag.Uses pfx ∨ ∃ a ∈ tag.attributes, a.1 = "xmlns:" ++ pfx

instance decidableUses (tag : Tag) (pfx : String) : Decidable (tag.Uses pfx) :=
  inferInstanceAs (Decidable (_ ∨ _))

instance decidableMentions (tag : Tag) (pfx : String) : Decidable (tag.Mentions pfx) :=
  inferInstanceAs (Decidable (_ ∨ _))

namespace Renaming

variable (r : Renaming)

/-! ## Names -/

/-- A prefix renamed. -/
def pfx (name : String) : String := if name = r.old then r.new else name

/-- A qualified name with its prefix renamed. -/
def name (name : String) : String :=
  match Text.cutAt ':' name.toList with
  | some (before, after) =>
    if String.ofList before = r.old then r.new ++ ":" ++ String.ofList after else name
  | none => name

/-- The name of an attribute with its prefix renamed, or the prefix that it declares. -/
def key (name : String) : String :=
  if name = "xmlns:" ++ r.old then "xmlns:" ++ r.new else r.name name

variable {r}

theorem name_of_hasPrefix (rest : String) :
    r.name (r.old ++ ":" ++ rest) = r.new ++ ":" ++ rest := by
  rw [Renaming.name, cutAt_name r.isPrefix_old.colon_not_mem]
  dsimp only
  rw [String.ofList_toList, String.ofList_toList, if_pos rfl]

theorem name_of_not_hasPrefix {name : String} (h : ¬ HasPrefix r.old name) :
    r.name name = name := by
  unfold Renaming.name
  split
  · rename_i before after cut
    split
    · rename_i same
      refine absurd ⟨String.ofList after, ?_⟩ h
      rw [← same]
      exact (eq_of_cutAt_name cut).1
    · rfl
  · rfl

theorem not_hasPrefix_of_bare {pfx name : String} (h : ':' ∉ name.toList) :
    ¬ HasPrefix pfx name := by
  rintro ⟨rest, rfl⟩
  simp at h

/-- A name has one prefix only. -/
theorem eq_of_hasPrefix {pfx other rest : String} (h : ':' ∉ pfx.toList) (h' : ':' ∉ other.toList)
    (has : HasPrefix pfx (other ++ ":" ++ rest)) : pfx = other := by
  obtain ⟨rest', same⟩ := has
  have cut := cutAt_name h rest'
  rw [← same, cutAt_name h'] at cut
  exact (String.toList_inj.mp (Prod.mk.inj (Option.some.inj cut)).1).symm

theorem declared?_of_hasPrefix {pfx name : String} (h : IsPrefix pfx) (has : HasPrefix pfx name) :
    declared? name = none := by
  obtain ⟨rest, rfl⟩ := has
  have colon : ':' ∈ (pfx ++ ":" ++ rest).toList := by simp
  unfold declared?
  rw [if_neg (fun same => by rw [same] at colon; exact absurd colon (by decide)),
    cutAt_name h.colon_not_mem]
  dsimp only
  rw [String.ofList_toList, if_neg h.ne_xmlns]

theorem declared?_declaration (pfx : String) : declared? ("xmlns:" ++ pfx) = some pfx :=
  declared?_eq_some_iff.mpr (.inr rfl)

theorem not_hasPrefix_declaration {pfx : String} (h : IsPrefix pfx) (other : String) :
    ¬ HasPrefix pfx ("xmlns:" ++ other) := by
  intro has
  have := declared?_of_hasPrefix h has
  rw [declared?_declaration] at this
  cases this

/-- Names without the new prefix stay apart. -/
theorem key_inj {a b : String} (ha : ¬ HasPrefix r.new a ∧ a ≠ "xmlns:" ++ r.new)
    (hb : ¬ HasPrefix r.new b ∧ b ≠ "xmlns:" ++ r.new) (same : r.key a = r.key b) : a = b := by
  have name_ne {x : String} (hx : ¬ HasPrefix r.new x ∧ x ≠ "xmlns:" ++ r.new) :
      r.name x ≠ "xmlns:" ++ r.new := by
    by_cases has : HasPrefix r.old x
    · obtain ⟨rest, rfl⟩ := has
      rw [name_of_hasPrefix]
      exact fun same => not_hasPrefix_declaration r.isPrefix_new r.new ⟨rest, same.symm⟩
    · rw [name_of_not_hasPrefix has]
      exact hx.2
  unfold key at same
  split at same <;> split at same
  · exact Eq.trans ‹_› (Eq.symm ‹_›)
  · exact absurd same.symm (name_ne hb)
  · exact absurd same (name_ne ha)
  · by_cases old : HasPrefix r.old a <;> by_cases old' : HasPrefix r.old b
    · obtain ⟨rest, rfl⟩ := old
      obtain ⟨rest', rfl⟩ := old'
      rw [name_of_hasPrefix, name_of_hasPrefix, String.append_right_inj] at same
      rw [same]
    · obtain ⟨rest, rfl⟩ := old
      rw [name_of_hasPrefix, name_of_not_hasPrefix old'] at same
      exact absurd ⟨rest, same.symm⟩ hb.1
    · obtain ⟨rest, rfl⟩ := old'
      rw [name_of_hasPrefix, name_of_not_hasPrefix old] at same
      exact absurd ⟨rest, same⟩ ha.1
    · rwa [name_of_not_hasPrefix old, name_of_not_hasPrefix old'] at same

/-- A renamed attribute declares the renamed prefix, or nothing as before. -/
theorem declared?_key (name : String) : declared? (r.key name) = (declared? name).map r.pfx := by
  unfold key
  split
  · rename_i declares
    rw [declares, declared?_declaration, declared?_declaration]
    exact (congrArg some (if_pos rfl)).symm
  · rename_i other
    by_cases has : HasPrefix r.old name
    · rw [declared?_of_hasPrefix r.isPrefix_old has]
      obtain ⟨rest, rfl⟩ := has
      rw [name_of_hasPrefix]
      exact declared?_of_hasPrefix r.isPrefix_new ⟨rest, rfl⟩
    · rw [name_of_not_hasPrefix has]
      cases declared : declared? name with
      | none => rfl
      | some x =>
        have ne : x ≠ r.old := by
          rintro rfl
          rcases declared?_eq_some_iff.mp declared with ⟨-, empty⟩ | same
          · exact r.isPrefix_old.ne_empty empty
          · exact other same
        rw [Option.map_some, pfx, if_neg ne]

/-! ## Scopes -/

variable (r) in
/-- A scope with its prefixes renamed. -/
def scope (scope : Scope) : Scope := scope.map fun d => (r.pfx d.1, d.2)

variable (r) in
/-- A tag with its names renamed. -/
def tag (tag : Tag) : Tag := ⟨r.name tag.name, tag.attributes.map fun a => (r.key a.1, a.2)⟩

theorem extend_scope (tag : Tag) (scope : Scope) :
    (r.tag tag).extend (r.scope scope) = r.scope (tag.extend scope) := by
  have declarations : (tag.attributes.map fun a => (r.key a.1, a.2)).filterMap declaration? =
      (tag.attributes.filterMap declaration?).map fun d => (r.pfx d.1, d.2) := by
    rw [List.filterMap_map, List.map_filterMap]
    congr 1
    funext a
    show declaration? (r.key a.1, a.2) = _
    rw [declaration?, declared?_key, declaration?, Option.map_map, Option.map_map]
    rfl
  rw [extend_eq, extend_eq]
  show ((tag.attributes.map fun a => (r.key a.1, a.2)).filterMap declaration?).reverse ++ _ = _
  rw [declarations, Renaming.scope, Renaming.scope, List.map_append, List.map_reverse]

/-- Prefixes other than the new one stay apart. -/
theorem pfx_inj {x y : String} (hx : x ≠ r.new) (hy : y ≠ r.new) : r.pfx x = r.pfx y ↔ x = y := by
  refine ⟨fun same => ?_, congrArg _⟩
  unfold pfx at same
  split at same <;> split at same
  · exact Eq.trans ‹_› (Eq.symm ‹_›)
  · exact absurd same.symm hy
  · exact absurd same hx
  · exact same

/-- A renamed prefix means in the renamed scope what it meant. -/
theorem lookup_scope {scope : Scope} (fresh : ∀ d ∈ scope, d.1 ≠ r.new) {x : String}
    (hx : x ≠ r.new) : lookup (r.scope scope) (r.pfx x) = lookup scope x := by
  have xml : r.pfx x = "xml" ↔ x = "xml" := by
    have := pfx_inj (r := r) hx r.isPrefix_new.ne_xml.symm
    rwa [show r.pfx "xml" = "xml" from if_neg r.isPrefix_old.ne_xml.symm] at this
  have find : (r.scope scope).find? (·.1 == r.pfx x) =
      (scope.find? (·.1 == x)).map fun d => (r.pfx d.1, d.2) := by
    rw [Renaming.scope, List.find?_map, ← List.head?_filter, ← List.head?_filter]
    congr 2
    refine List.filter_congr fun d hd => ?_
    rw [Bool.eq_iff_iff, beq_iff_eq]
    exact beq_iff_eq.trans (pfx_inj (fresh d hd) hx)
  unfold lookup
  simp only [xml, find]
  cases scope.find? (·.1 == x) <;> rfl

theorem qualified_name {scope : Scope} (fresh : ∀ d ∈ scope, d.1 ≠ r.new) {bare : Option String}
    {name : String} (unused : ¬ HasPrefix r.new name)
    (known : HasPrefix r.old name → ∃ uri, lookup scope r.old = some uri) :
    qualified (r.scope scope) bare (r.name name) = qualified scope bare name := by
  rcases bare_or_prefixed name with free | ⟨x, rest, rfl, free⟩
  · rw [name_of_not_hasPrefix (not_hasPrefix_of_bare free), qualified_of_bare free,
      qualified_of_bare free]
  · have hx : x ≠ r.new := by
      rintro rfl
      exact unused ⟨rest, rfl⟩
    have same := lookup_scope fresh hx
    by_cases old : x = r.old
    · subst old
      obtain ⟨uri, found⟩ := known ⟨rest, rfl⟩
      rw [name_of_hasPrefix, qualified_of_lookup_eq_some free found]
      rw [found, show r.pfx r.old = r.new from if_pos rfl] at same
      exact qualified_of_lookup_eq_some r.isPrefix_new.colon_not_mem same
    · rw [name_of_not_hasPrefix fun has =>
        old (eq_of_hasPrefix r.isPrefix_old.colon_not_mem free has).symm]
      rw [show r.pfx x = x from if_neg old] at same
      cases found : lookup scope x with
      | none =>
        rw [qualified_of_lookup_eq_none free found,
          qualified_of_lookup_eq_none free (same.trans found)]
      | some uri =>
        rw [qualified_of_lookup_eq_some free found,
          qualified_of_lookup_eq_some free (same.trans found)]

theorem resolvedAttributes_tag {scope : Scope} (fresh : ∀ d ∈ scope, d.1 ≠ r.new) {tag : Tag}
    (unused : ¬ tag.Uses r.new) (known : tag.Uses r.old → ∃ uri, lookup scope r.old = some uri) :
    (r.tag tag).resolvedAttributes (r.scope scope) = tag.resolvedAttributes scope := by
  unfold Tag.resolvedAttributes Renaming.tag
  dsimp only
  rw [List.filter_map, List.map_map]
  have declares : ((fun a : String × String => (declared? a.1).isNone) ∘
      fun a : String × String => (r.key a.1, a.2)) = fun a => (declared? a.1).isNone := by
    funext a
    simp only [Function.comp_apply, declared?_key, Option.isNone_map]
  rw [declares]
  refine List.map_congr_left fun a ha => ?_
  obtain ⟨mem, plain⟩ := List.mem_filter.mp ha
  have key : r.key a.1 = r.name a.1 := by
    refine if_neg fun declaration => ?_
    rw [declaration, declared?_declaration] at plain
    cases plain
  show (⟨(qualified (r.scope scope) none (r.key a.1)).1,
    (qualified (r.scope scope) none (r.key a.1)).2, unescaped a.2⟩ : Attribute) = _
  rw [key, qualified_name fresh (fun has => unused (.inr ⟨a, mem, has⟩))
    fun has => known (.inr ⟨a, mem, has⟩)]

end Renaming

/-! ## Trees -/

/-- A tag in a tree, and the tags of the elements around it, the outermost first. -/
structure Site where
  ancestors : List Tag
  tag : Tag

/-- The tags from the outermost element down to this one. -/
def Site.path (site : Site) : List Tag := site.ancestors ++ [site.tag]

mutual

/-- The tags of a tree in document order. -/
def sites (ancestors : List Tag) : RawElement → List Site
  | ⟨tag, children⟩ => ⟨ancestors, tag⟩ :: sitesOfList (ancestors ++ [tag]) children

/-- The tags of trees in document order. -/
def sitesOfList (ancestors : List Tag) : List RawElement → List Site
  | [] => []
  | tree :: trees => sites ancestors tree ++ sitesOfList ancestors trees

end

namespace Renaming

/-- A tag where the renaming changes no meaning: the new prefix does not occur, and the old one has
a namespace if it is used. -/
structure Allows (r : Renaming) (site : Site) : Prop where
  fresh : ¬ site.tag.Mentions r.new
  known : site.tag.Uses r.old → ∃ uri, Means site.path r.old uri

theorem allows_iff {r : Renaming} {site : Site} :
    r.Allows site ↔ ¬ site.tag.Mentions r.new ∧
      (site.tag.Uses r.old → (lookup (scopeOf site.path) r.old).isSome = true) := by
  have known : (lookup (scopeOf site.path) r.old).isSome = true ↔
      ∃ uri, Means site.path r.old uri := by
    simp only [Option.isSome_iff_exists, lookup_scopeOf_eq_some_iff]
  rw [known]
  exact ⟨fun h => ⟨h.fresh, h.known⟩, fun h => ⟨h.1, h.2⟩⟩

instance decidableAllows (r : Renaming) (site : Site) : Decidable (r.Allows site) :=
  decidable_of_iff _ allows_iff.symm

variable (r : Renaming)

/-- A tree with its names renamed. -/
def tree : RawElement → RawElement
  | ⟨tag, children⟩ => ⟨r.tag tag, children.map tree⟩

/-- An event with its names renamed. -/
def event : Event → Event
  | .opening tag => .opening (r.tag tag)
  | .empty tag => .empty (r.tag tag)
  | .closing name => .closing (r.name name)
  | .aside => .aside

variable {r}

/-- What a tag without the new prefix adds to a scope leaves it free of it. -/
theorem fresh_extend {scope : Scope} (fresh : ∀ d ∈ scope, d.1 ≠ r.new) {tag : Tag}
    (unmentioned : ¬ tag.Mentions r.new) : ∀ d ∈ tag.extend scope, d.1 ≠ r.new := by
  rw [extend_eq]
  intro d hd
  rcases List.mem_append.mp hd with hd | hd
  · obtain ⟨⟨name, value⟩, ha, declaration⟩ := List.mem_filterMap.mp (List.mem_reverse.mp hd)
    obtain ⟨pfx, uri⟩ := d
    rintro rfl
    rcases (declaration?_eq_some_iff.mp declaration).1 with ⟨-, empty⟩ | same
    · exact r.isPrefix_new.ne_empty empty
    · exact unmentioned (.inr ⟨_, ha, same⟩)
  · exact fresh d hd

mutual

/-- A renamed tree is resolved to the same element. -/
theorem resolve_tree {ancestors : List Tag} (fresh : ∀ d ∈ scopeOf ancestors, d.1 ≠ r.new) :
    (tree : RawElement) → (∀ site ∈ sites ancestors tree, r.Allows site) →
      (r.tree tree).resolve (r.scope (scopeOf ancestors)) = tree.resolve (scopeOf ancestors)
  | ⟨tag, children⟩, allowed => by
    rw [sites, List.forall_mem_cons] at allowed
    obtain ⟨here, below⟩ := allowed
    have inner : ∀ d ∈ scopeOf (ancestors ++ [tag]), d.1 ≠ r.new := by
      rw [scopeOf_append_singleton]
      exact fresh_extend fresh here.fresh
    have known (uses : tag.Uses r.old) :
        ∃ uri, lookup (scopeOf (ancestors ++ [tag])) r.old = some uri := by
      obtain ⟨uri, means⟩ := here.known uses
      exact ⟨uri, lookup_scopeOf_eq_some_iff.mpr means⟩
    have default : lookup (r.scope (scopeOf (ancestors ++ [tag]))) "" =
        lookup (scopeOf (ancestors ++ [tag])) "" := by
      have := lookup_scope inner r.isPrefix_new.ne_empty.symm
      rwa [show r.pfx "" = "" from if_neg r.isPrefix_old.ne_empty.symm] at this
    rw [Renaming.tree, RawElement.resolve, RawElement.resolve, extend_scope,
      ← scopeOf_append_singleton, default,
      resolvedAttributes_tag inner (fun uses => here.fresh (.inl uses)) known,
      resolve_trees inner children below]
    rw [show (r.tag tag).name = r.name tag.name from rfl,
      qualified_name inner (fun has => here.fresh (.inl (.inl has))) fun has => known (.inl has)]

theorem resolve_trees {ancestors : List Tag} (fresh : ∀ d ∈ scopeOf ancestors, d.1 ≠ r.new) :
    (trees : List RawElement) → (∀ site ∈ sitesOfList ancestors trees, r.Allows site) →
      (trees.map r.tree).map (RawElement.resolve (r.scope (scopeOf ancestors))) =
        trees.map (RawElement.resolve (scopeOf ancestors))
  | [], _ => rfl
  | tree :: trees, allowed => by
    rw [sitesOfList, List.forall_mem_append] at allowed
    rw [List.map_cons, List.map_cons, List.map_cons, resolve_tree fresh tree allowed.1,
      resolve_trees fresh trees allowed.2]

end

/-! ## Events -/

mutual

theorem spells {tree : RawElement} {events : List Event} :
    Spells tree events → Spells (r.tree tree) (events.map r.event)
  | .empty tag => by
    rw [Renaming.tree]
    exact .empty (r.tag tag)
  | .element tag below => by
    rw [Renaming.tree, List.map_append, List.map_cons]
    exact .element (r.tag tag) (spellsAll below)

/-- Renamed events write down renamed trees. -/
theorem spellsAll {trees : List RawElement} {events : List Event} :
    SpellsAll trees events → SpellsAll (trees.map r.tree) (events.map r.event)
  | .nil => .nil
  | .aside rest => .aside (spellsAll rest)
  | .cons first rest => by
    rw [List.map_append, List.map_cons]
    exact .cons (spells first) (spellsAll rest)

end

end Renaming

/-- The tag of an event that has attributes. -/
def Event.tag? : Event → Option Tag
  | .opening tag | .empty tag => some tag
  | .closing _ | .aside => none

mutual

theorem Spells.map_tag_sites {tree : RawElement} {events : List Event} (ancestors : List Tag) :
    Spells tree events → (sites ancestors tree).map Site.tag = events.filterMap Event.tag?
  | .empty tag => by rw [sites, sitesOfList]; rfl
  | .element tag below => by
    rw [sites, List.map_cons, below.map_tag_sites]
    simp [Event.tag?]

/-- The tags of trees are those of the events that write them down. -/
theorem SpellsAll.map_tag_sites {trees : List RawElement} {events : List Event}
    (ancestors : List Tag) :
    SpellsAll trees events →
      (sitesOfList ancestors trees).map Site.tag = events.filterMap Event.tag?
  | .nil => by rw [sitesOfList]; rfl
  | .aside rest => rest.map_tag_sites ancestors
  | .cons first rest => by
    rw [sitesOfList, List.map_append, List.filterMap_append, first.map_tag_sites,
      rest.map_tag_sites]

end

end LaserCut.Markup
