import Mathlib.Logic.Relation
import LaserCut.Svg.Style
import LaserCut.Proofs.Text.Fields

/-!
# Declarations in styles

What the properties of an element are, by the declarations that its `style` is written from.

* `Segment`: what stands between two semicolons, a declaration with blanks about its parts or a text
  that declares nothing; every text is written from segments (`exists_write_eq`);
* `IsProperty`: the last declaration, otherwise the attribute, otherwise nothing;
* `Edit`: a declaration of another property is added or moved;
* `styleProperty?_isLastDeclared`: the property is the one of `IsProperty`, and no edits change it,
  unless it is the undeclared property `style`, for which the whole attribute stands in.
-/

namespace LaserCut

/-! ## Attributes -/

namespace Attribute

/-- The attribute has the name and no namespace. -/
def IsNamed (a : Attribute) (name : String) : Prop := a.space = none ∧ a.name = name

theorem isNamed_iff {a : Attribute} {name : String} :
    a.IsNamed name ↔ (a.space == none && a.name == name) = true := by
  rw [Bool.and_eq_true, beq_iff_eq, beq_iff_eq, IsNamed]

end Attribute

namespace Element

/-- The first attribute of the name has the value. -/
def HasAttribute (e : Element) (name value : String) : Prop :=
  ∃ before a after, e.attributes = before ++ a :: after ∧ a.IsNamed name ∧ a.value = value ∧
    ∀ b ∈ before, ¬ b.IsNamed name

/-- No attribute has the name. -/
def LacksAttribute (e : Element) (name : String) : Prop :=
  ∀ a ∈ e.attributes, ¬ a.IsNamed name

theorem attribute?_eq_some_iff {e : Element} {name value : String} :
    e.attribute? name = some value ↔ e.HasAttribute name value := by
  rw [attribute?, attributeIn?, Option.map_eq_some_iff]
  simp only [List.find?_eq_some_iff_append, Bool.not_eq_true', ← Bool.not_eq_true,
    ← Attribute.isNamed_iff]
  constructor
  · rintro ⟨a, ⟨named, before, after, split, others⟩, same⟩
    exact ⟨before, a, after, split, named, same, others⟩
  · rintro ⟨before, a, after, split, named, same, others⟩
    exact ⟨a, ⟨named, before, after, split, others⟩, same⟩

theorem attribute?_eq_none_iff {e : Element} {name : String} :
    e.attribute? name = none ↔ e.LacksAttribute name := by
  rw [attribute?, attributeIn?, Option.map_eq_none_iff]
  simp only [List.find?_eq_none, ← Attribute.isNamed_iff]
  rfl

end Element

namespace Svg.Style

open Text

/-! ## Segments -/

/-- A text of blanks alone. -/
structure Blanks where
  chars : List Char
  blank : ∀ c ∈ chars, isBlank c = true

def Blanks.none : Blanks := ⟨[], List.forall_mem_nil _⟩

def Blanks.one (c : Char) (blank : isBlank c = true) : Blanks :=
  ⟨[c], List.forall_mem_singleton.mpr blank⟩

/-- A declaration. Blanks at the ends of its key and its value do not count. -/
structure Declaration where
  key : List Char
  value : List Char
  key_free : ':' ∉ key ∧ ';' ∉ key
  value_free : ';' ∉ value

namespace Declaration

/-- The property that is declared. -/
def property (d : Declaration) : String := String.ofList (trim d.key)

/-- The value that is declared. -/
def content (d : Declaration) : String := String.ofList (trim d.value)

/-- The key is that of the property. -/
def Declares (d : Declaration) (property : String) : Prop := TrimsTo d.key property.toList

instance (d : Declaration) (property : String) : Decidable (d.Declares property) :=
  inferInstanceAs (Decidable (TrimsTo _ _))

end Declaration

/-- What stands between two semicolons. -/
inductive Segment where
  | declaration (d : Declaration) (beforeKey afterKey beforeValue afterValue : Blanks)
  | stray (text : List Char) (free : ':' ∉ text ∧ ';' ∉ text)

namespace Segment

/-- A declaration without blanks about its parts. -/
def plain (d : Declaration) : Segment := declaration d .none .none .none .none

/-- The text of a segment. -/
def chars : Segment → List Char
  | declaration d beforeKey afterKey beforeValue afterValue =>
    beforeKey.chars ++ (d.key ++ afterKey.chars) ++
      ':' :: (beforeValue.chars ++ (d.value ++ afterValue.chars))
  | stray text _ => text

def declaration? : Segment → Option Declaration
  | declaration d .. => some d
  | stray .. => none

/-- The segment is a declaration of another property. -/
def DeclaresOther (s : Segment) (property : String) : Prop :=
  ∃ d, s.declaration? = some d ∧ ¬ d.Declares property

end Segment

/-- The text of a style. -/
def write (segments : List Segment) : String :=
  String.ofList ([';'].intercalate (segments.map Segment.chars))

/-- The declarations among segments, in order. -/
def declared (segments : List Segment) : List Declaration :=
  segments.filterMap Segment.declaration?

/-- The style of an element is written from the segments. Without the attribute there are none. -/
inductive IsStyled (e : Element) : List Segment → Prop
  | written {segments : List Segment} :
    e.HasAttribute "style" (write segments) → IsStyled e segments
  | bare : e.LacksAttribute "style" → IsStyled e []

/-- The value of a property on an element with the declarations, if it has one. -/
inductive IsProperty (e : Element) (ds : List Declaration) (property : String) :
    Option String → Prop
  | declared {before after : List Declaration} {d : Declaration} {value : String} :
    ds = before ++ d :: after → d.Declares property → (∀ b ∈ after, ¬ b.Declares property) →
    TrimsTo d.value value.toList → IsProperty e ds property (some value)
  | attributed {text value : String} :
    (∀ d ∈ ds, ¬ d.Declares property) → e.HasAttribute property text →
    TrimsTo text.toList value.toList → IsProperty e ds property (some value)
  | absent : (∀ d ∈ ds, ¬ d.Declares property) → e.LacksAttribute property →
    IsProperty e ds property none

/-! ## Edits -/

/-- A change to the declarations of other properties: one of them is added, or it changes places
with its neighbour, which may be any segment. -/
inductive Edit (property : String) : List Segment → List Segment → Prop
  | add {before after : List Segment} {s : Segment} :
    s.DeclaresOther property → Edit property (before ++ after) (before ++ s :: after)
  | swap {before after : List Segment} {s t : Segment} :
    s.DeclaresOther property ∨ t.DeclaresOther property →
    Edit property (before ++ s :: t :: after) (before ++ t :: s :: after)

/-- The elements have the same attributes but for their styles. -/
def AgreeButStyle (e e' : Element) : Prop :=
  ∀ name, name ≠ "style" → ∀ value, e'.HasAttribute name value ↔ e.HasAttribute name value

/-- No edits change the property. -/
def IsKept (e : Element) (segments : List Segment) (property : String) : Prop :=
  ∀ e' segments', AgreeButStyle e e' → IsStyled e' segments' →
    Relation.ReflTransGen (Edit property) segments segments' →
    styleProperty? e' property = styleProperty? e property

/-! ## Reading what is written -/

theorem declares_iff {d : Declaration} {property : String} :
    d.Declares property ↔ (d.property == property) = true := by
  rw [beq_iff_eq, Declaration.Declares, ← trim_eq_iff, Declaration.property, ← String.toList_inj,
    String.toList_ofList]

theorem content_eq_iff {d : Declaration} {value : String} :
    d.content = value ↔ TrimsTo d.value value.toList := by
  rw [← trim_eq_iff, Declaration.content, ← String.toList_inj, String.toList_ofList]

namespace Blanks

theorem colon_not_mem (b : Blanks) : ':' ∉ b.chars := fun mem => absurd (b.blank _ mem) (by decide)

theorem semicolon_not_mem (b : Blanks) : ';' ∉ b.chars :=
  fun mem => absurd (b.blank _ mem) (by decide)

end Blanks

theorem semicolon_not_mem_chars (s : Segment) : ';' ∉ s.chars := by
  cases s with
  | declaration d b a b' a' =>
    simp only [Segment.chars, List.mem_append, List.mem_cons, not_or]
    exact ⟨⟨b.semicolon_not_mem, d.key_free.2, a.semicolon_not_mem⟩, by decide,
      b'.semicolon_not_mem, d.value_free, a'.semicolon_not_mem⟩
  | stray text free => exact free.2

/-- A segment is cut at the colon behind its key, whatever colons its value has. -/
theorem cutAt_chars (s : Segment) :
    ((cutAt ':' s.chars).map fun (key, value) =>
      (String.ofList (trim key), String.ofList (trim value))) =
      s.declaration?.map fun d => (d.property, d.content) := by
  cases s with
  | declaration d b a b' a' =>
    have free : ':' ∉ b.chars ++ (d.key ++ a.chars) := by
      simp only [List.mem_append, not_or]
      exact ⟨b.colon_not_mem, d.key_free.1, a.colon_not_mem⟩
    rw [Segment.chars, cutAt_append_cons free, Option.map_some]
    show some (String.ofList (trim _), String.ofList (trim _)) = _
    rw [trim_blanks b.blank a.blank, trim_blanks b'.blank a'.blank]
    rfl
  | stray text free => rw [Segment.chars, cutAt_eq_none_iff.mpr free.1]; rfl

theorem split_write (segments : List Segment) (some : segments ≠ []) :
    split (· == ';') (write segments).toList = segments.map Segment.chars := by
  have free : ∀ piece ∈ segments.map Segment.chars, ∀ c ∈ piece, (c == ';') = false := by
    intro piece mem c hc
    obtain ⟨s, -, rfl⟩ := List.mem_map.mp mem
    exact beq_eq_false_iff_ne.mpr fun same => semicolon_not_mem_chars s (same ▸ hc)
  rw [write, String.toList_ofList]
  exact split_intercalate rfl free (mt List.map_eq_nil_iff.mp some)

theorem declarations_write (segments : List Segment) :
    declarations (write segments) =
      (declared segments).map fun d => (d.property, d.content) := by
  cases segments with
  | nil => rfl
  | cons s segments =>
    rw [declarations, split_write _ (List.cons_ne_nil _ _), List.filterMap_map, declared,
      List.map_filterMap]
    exact congrArg (List.filterMap · _) (funext cutAt_chars)

/-- The last declaration of the property. -/
def last? (ds : List Declaration) (property : String) : Option Declaration :=
  (ds.filter (·.property == property)).getLast?

theorem declared?_write (segments : List Segment) (property : String) :
    declared? (write segments) property =
      (last? (declared segments) property).map Declaration.content := by
  rw [declared?, ← List.getLast?_filter, declarations_write, List.filter_map, List.getLast?_map,
    Option.map_map]
  rfl

theorem styleProperty?_eq {e : Element} {segments : List Segment} (styled : IsStyled e segments)
    (property : String) :
    styleProperty? e property = ((last? (declared segments) property).map Declaration.content).or
      (trimmedAttribute? e property) := by
  rw [styleProperty?]
  cases styled with
  | written h =>
    rw [Element.attribute?_eq_some_iff.mpr h, Option.bind_some, declared?_write]
  | bare h => rw [Element.attribute?_eq_none_iff.mpr h]; rfl

/-! ## The last declaration -/

theorem last?_eq_some_iff {ds : List Declaration} {property : String} {d : Declaration} :
    last? ds property = some d ↔ ∃ before after, ds = before ++ d :: after ∧
      d.Declares property ∧ ∀ b ∈ after, ¬ b.Declares property := by
  rw [last?, List.getLast?_filter, List.find?_eq_some_iff_append]
  simp only [declares_iff, Bool.not_eq_true', ← Bool.not_eq_true]
  constructor
  · rintro ⟨holds, after, before, split, others⟩
    refine ⟨before.reverse, after.reverse, ?_, holds, fun b mem =>
      others b (List.mem_reverse.mp mem)⟩
    rw [← List.reverse_reverse ds, split, List.reverse_append, List.reverse_cons, List.append_assoc,
      List.singleton_append]
  · rintro ⟨before, after, rfl, holds, others⟩
    refine ⟨holds, after.reverse, before.reverse, ?_, fun b mem =>
      others b (List.mem_reverse.mp mem)⟩
    rw [List.reverse_append, List.reverse_cons, List.append_assoc, List.singleton_append]

theorem last?_eq_none_iff {ds : List Declaration} {property : String} :
    last? ds property = none ↔ ∀ d ∈ ds, ¬ d.Declares property := by
  rw [last?, List.getLast?_eq_none_iff, List.filter_eq_nil_iff]
  simp only [declares_iff]

theorem trimmedAttribute?_eq_some_iff {e : Element} {name value : String} :
    trimmedAttribute? e name = some value ↔
      ∃ text, e.HasAttribute name text ∧ TrimsTo text.toList value.toList := by
  rw [trimmedAttribute?, Option.map_eq_some_iff]
  simp only [Element.attribute?_eq_some_iff, trimmed, ← trim_eq_iff, ← String.toList_inj,
    String.toList_ofList]

theorem trimmedAttribute?_eq_none_iff {e : Element} {name : String} :
    trimmedAttribute? e name = none ↔ e.LacksAttribute name := by
  rw [trimmedAttribute?, Option.map_eq_none_iff, Element.attribute?_eq_none_iff]

theorem styleProperty?_eq_iff {e : Element} {segments : List Segment} (styled : IsStyled e segments)
    (property : String) (value : Option String) :
    styleProperty? e property = value ↔ IsProperty e (declared segments) property value := by
  rw [styleProperty?_eq styled]
  constructor
  · rintro rfl
    cases last : last? (declared segments) property with
    | some d =>
      obtain ⟨before, after, split, holds, others⟩ := last?_eq_some_iff.mp last
      exact .declared split holds others (content_eq_iff.mp rfl)
    | none =>
      have others := last?_eq_none_iff.mp last
      cases attr : trimmedAttribute? e property with
      | some value =>
        obtain ⟨text, has, trims⟩ := trimmedAttribute?_eq_some_iff.mp attr
        exact .attributed others has trims
      | none => exact .absent others (trimmedAttribute?_eq_none_iff.mp attr)
  · intro h
    cases h with
    | declared split holds others trims =>
      rw [last?_eq_some_iff.mpr ⟨_, _, split, holds, others⟩, Option.map_some,
        content_eq_iff.mpr trims]
      rfl
    | attributed others has trims =>
      rw [last?_eq_none_iff.mpr others, trimmedAttribute?_eq_some_iff.mpr ⟨_, has, trims⟩]
      rfl
    | absent others lacks =>
      rw [last?_eq_none_iff.mpr others, trimmedAttribute?_eq_none_iff.mpr lacks]
      rfl

/-! ## What edits keep -/

/-- The declaration in a segment, if it is one of the property. -/
def declarationOf? (property : String) (s : Segment) : Option Declaration :=
  s.declaration?.filter (·.property == property)

theorem last?_declared (segments : List Segment) (property : String) :
    last? (declared segments) property =
      (segments.filterMap (declarationOf? property)).getLast? := by
  rw [last?, declared, List.filter_filterMap]
  rfl

theorem declarationOf?_eq_none {s : Segment} {property : String}
    (other : s.DeclaresOther property) : declarationOf? property s = none := by
  obtain ⟨d, same, other⟩ := other
  rw [declares_iff, Bool.not_eq_true] at other
  rw [declarationOf?, same]
  exact Option.filter_some_neg other

theorem Edit.filterMap_eq {property : String} {segments segments' : List Segment}
    (edit : Edit property segments segments') :
    segments'.filterMap (declarationOf? property) =
      segments.filterMap (declarationOf? property) := by
  cases edit with
  | add other =>
    rw [List.filterMap_append, List.filterMap_append,
      List.filterMap_cons_none (declarationOf?_eq_none other)]
  | @swap before after s t other =>
    rw [List.filterMap_append, List.filterMap_append]
    refine congrArg _ ?_
    -- One of the two is no declaration of the property, so their order is not seen.
    rcases other with other | other <;>
    · have none := declarationOf?_eq_none other
      simp only [List.filterMap_cons, none]

theorem filterMap_eq_of_edits {property : String} {segments segments' : List Segment}
    (edits : Relation.ReflTransGen (Edit property) segments segments') :
    segments'.filterMap (declarationOf? property) =
      segments.filterMap (declarationOf? property) := by
  induction edits with
  | refl => rfl
  | tail _ edit ih => exact edit.filterMap_eq.trans ih

theorem agreeButStyle_iff {e e' : Element} :
    AgreeButStyle e e' ↔ ∀ name, name ≠ "style" → e'.attribute? name = e.attribute? name := by
  refine forall₂_congr fun name _ => ?_
  rw [Option.ext_iff]
  simp only [Element.attribute?_eq_some_iff]

/-- A property is kept that has an attribute of its own to stand in for declarations. -/
theorem isKept_of_ne {e : Element} {segments : List Segment} {property : String}
    (styled : IsStyled e segments) (other : property ≠ "style") : IsKept e segments property := by
  intro e' segments' agree styled' edits
  rw [styleProperty?_eq styled', styleProperty?_eq styled, last?_declared, last?_declared,
    filterMap_eq_of_edits edits, trimmedAttribute?, trimmedAttribute?,
    agreeButStyle_iff.mp agree property other]

/-- A property that is declared is kept, whatever its name. -/
theorem isKept_of_declares {e : Element} {segments : List Segment} {property : String}
    (styled : IsStyled e segments) {d : Declaration} (mem : d ∈ declared segments)
    (holds : d.Declares property) : IsKept e segments property := by
  intro e' segments' agree styled' edits
  rw [styleProperty?_eq styled', styleProperty?_eq styled, last?_declared segments',
    filterMap_eq_of_edits edits, ← last?_declared segments]
  -- There is a last declaration, so the attributes, which may differ here, are not looked at.
  cases last : last? (declared segments) property with
  | some last => rfl
  | none => exact absurd holds (last?_eq_none_iff.mp last d mem)

/-! ## The property without an attribute of its own -/

/-- The element with another style in front of its own, which then counts for nothing. -/
def restyled (e : Element) (style : String) : Element :=
  { e with attributes := ⟨none, "style", style⟩ :: e.attributes }

theorem attribute?_restyled (e : Element) (style : String) :
    (restyled e style).attribute? "style" = some style := rfl

theorem agreeButStyle_restyled (e : Element) (style : String) :
    AgreeButStyle e (restyled e style) := by
  refine agreeButStyle_iff.mpr fun name other => ?_
  have unnamed : ¬ Attribute.IsNamed ⟨none, "style", style⟩ name := fun h => other h.2.symm
  exact congrArg (Option.map Attribute.value)
    (List.find?_cons_of_neg (mt Attribute.isNamed_iff.mpr unnamed))

theorem exists_toList_write_cons {c : Char} {tail : List Char} {front : Segment}
    (begins : front.chars = c :: tail) (segments : List Segment) :
    ∃ rest, (write (front :: segments)).toList = c :: rest := by
  rw [write, String.toList_ofList, List.map_cons, begins]
  cases segments.map Segment.chars with
  | nil => exact ⟨tail, List.intercalate_singleton⟩
  | cons piece pieces => exact ⟨_, List.intercalate_cons_cons⟩

/-- Undeclared, the property `style` is the whole attribute, and begins as a declaration in front of
the others does. -/
theorem exists_styleProperty?_of_isKept {e : Element} {segments : List Segment}
    (undeclared : ∀ d ∈ declared segments, ¬ d.Declares "style")
    (kept : IsKept e segments "style") {c : Char} (inside : isBlank c = false)
    (free : ':' ∉ [c] ∧ ';' ∉ [c]) (other : ¬ TrimsTo [c] "style".toList) :
    ∃ rest, styleProperty? e "style" = some (String.ofList (c :: rest)) := by
  let front := Segment.plain ⟨[c], [], free, List.not_mem_nil⟩
  let style := write (front :: segments)
  have styled : IsStyled (restyled e style) (front :: segments) :=
    .written (Element.attribute?_eq_some_iff.mp (attribute?_restyled e style))
  have edit : Edit "style" ([] ++ segments) ([] ++ front :: segments) := .add ⟨_, rfl, other⟩
  have same := kept _ _ (agreeButStyle_restyled e style) styled (.single edit)
  -- Neither the new declaration nor the others are of `style`, so the new attribute stands in.
  have last : last? (declared (front :: segments)) "style" = none :=
    last?_eq_none_iff.mpr (List.forall_mem_cons.mpr ⟨other, undeclared⟩)
  have begins : front.chars = c :: [':'] := rfl
  obtain ⟨rest, text⟩ := exists_toList_write_cons begins segments
  obtain ⟨rest, trims⟩ := exists_trim_cons inside rest
  rw [styleProperty?_eq styled, last, trimmedAttribute?, attribute?_restyled, Option.map_some,
    trimmed, text, trims] at same
  exact ⟨rest, same.symm⟩

/-- Two declarations that begin differently cannot both leave the whole attribute as it was. -/
theorem not_isKept_style {e : Element} {segments : List Segment}
    (undeclared : ∀ d ∈ declared segments, ¬ d.Declares "style") :
    ¬ IsKept e segments "style" := by
  intro kept
  obtain ⟨rest, first⟩ := exists_styleProperty?_of_isKept undeclared kept (c := 'a')
    (by decide) (by decide) (by decide)
  obtain ⟨rest', second⟩ := exists_styleProperty?_of_isKept undeclared kept (c := 'b')
    (by decide) (by decide) (by decide)
  have same := String.ofList_injective (Option.some.inj (first.symm.trans second))
  exact absurd (List.cons.inj same).1 (by decide)

/-! ## Every style is written from segments -/

theorem exists_chars_eq {piece : List Char} (free : ';' ∉ piece) :
    ∃ s : Segment, s.chars = piece := by
  cases cut : cutAt ':' piece with
  | none => exact ⟨.stray piece ⟨cutAt_eq_none_iff.mp cut, free⟩, rfl⟩
  | some parts =>
    obtain ⟨key, value⟩ := parts
    obtain ⟨rfl, colonless⟩ := of_cutAt_eq_some cut
    rw [List.mem_append, List.mem_cons, not_or, not_or] at free
    refine ⟨.plain ⟨key, value, ⟨colonless, free.1⟩, free.2.2⟩, ?_⟩
    simp only [Segment.plain, Segment.chars, Blanks.none, List.nil_append, List.append_nil]

theorem exists_map_chars_eq {pieces : List (List Char)} (free : ∀ piece ∈ pieces, ';' ∉ piece) :
    ∃ segments : List Segment, segments.map Segment.chars = pieces := by
  induction pieces with
  | nil => exact ⟨[], rfl⟩
  | cons piece pieces ih =>
    obtain ⟨s, rfl⟩ := exists_chars_eq (free piece List.mem_cons_self)
    obtain ⟨segments, rfl⟩ := ih fun piece mem => free piece (List.mem_cons_of_mem _ mem)
    exact ⟨s :: segments, rfl⟩

theorem exists_write_eq (style : String) : ∃ segments, write segments = style := by
  have free : ∀ piece ∈ split (· == ';') style.toList, ';' ∉ piece := fun piece mem separated =>
    absurd (not_sep_of_mem_split mem ';' separated) (by decide)
  obtain ⟨segments, same⟩ := exists_map_chars_eq free
  exact ⟨segments, by rw [write, same, intercalate_split, String.ofList_toList]⟩

/-- Every element has its style from some segments. -/
theorem exists_isStyled (e : Element) : ∃ segments, IsStyled e segments := by
  cases attr : e.attribute? "style" with
  | none => exact ⟨[], .bare (Element.attribute?_eq_none_iff.mp attr)⟩
  | some style =>
    obtain ⟨segments, rfl⟩ := exists_write_eq style
    exact ⟨segments, .written (Element.attribute?_eq_some_iff.mp attr)⟩

/-! ## The property of an element -/

/-- A property is the trimmed value of the last declaration of it, otherwise the trimmed attribute,
otherwise nothing. Declarations of other properties may be added and moved without changing it,
unless it is the property `style` and not declared: the attribute is then the whole style. -/
theorem styleProperty?_isLastDeclared {e : Element} {segments : List Segment}
    (styled : IsStyled e segments) (property : String) :
    (∀ value, styleProperty? e property = value ↔
      IsProperty e (declared segments) property value) ∧
    (IsKept e segments property ↔
      property ≠ "style" ∨ ∃ d ∈ declared segments, d.Declares property) := by
  refine ⟨styleProperty?_eq_iff styled property, fun kept => ?_, ?_⟩
  · by_cases named : property = "style"
    · subst named
      refine .inr (Classical.byContradiction fun none => not_isKept_style ?_ kept)
      exact fun d mem holds => none ⟨d, mem, holds⟩
    · exact .inl named
  · rintro (other | ⟨d, mem, holds⟩)
    · exact isKept_of_ne styled other
    · exact isKept_of_declares styled mem holds

/-- An element with a display and a style. -/
def displayed (style : String) : Element :=
  ⟨"path", none, [⟨none, "display", "inline"⟩, ⟨none, "style", style⟩], []⟩

theorem agreeButStyle_displayed (style style' : String) :
    AgreeButStyle (displayed style) (displayed style') := by
  refine agreeButStyle_iff.mpr fun name other => ?_
  simp [Element.attribute?, Element.attributeIn?, displayed, List.find?_cons, Ne.symm other]

def displayBlock : Declaration := ⟨"display".toList, "block".toList, by decide, by decide⟩

def displayNone : Declaration := ⟨"display".toList, "none".toList, by decide, by decide⟩

def fillPattern : Declaration := ⟨"fill".toList, "url(a:b)".toList, by decide, by decide⟩

/-- A property is declared twice, one value has a colon, and two segments declare nothing. -/
def mixedSegments : List Segment :=
  [.plain displayBlock, .stray " note ".toList (by decide), .stray [] (by decide),
    .declaration displayNone (.one '\n' rfl) (.one ' ' rfl) (.one ' ' rfl) (.one '\t' rfl),
    .plain fillPattern]

theorem styleProperty?_isLastDeclared_mixed :
    let e := displayed "display:block; note ;;\ndisplay : none\t;fill:url(a:b)"
    IsStyled e mixedSegments ∧ styleProperty? e "display" = some "none" ∧
      styleProperty? e "fill" = some "url(a:b)" ∧ IsKept e mixedSegments "display" := by
  intro e
  have styled : IsStyled e mixedSegments :=
    .written (Element.attribute?_eq_some_iff.mp (by decide +kernel))
  have display := styleProperty?_isLastDeclared styled "display"
  have fill := styleProperty?_isLastDeclared styled "fill"
  have all : declared mixedSegments = [displayBlock, displayNone, fillPattern] := rfl
  rw [all] at display fill
  refine ⟨styled, (display.1 _).mpr ?_, (fill.1 _).mpr ?_, display.2.mpr (.inl (by decide))⟩
  · have last : [displayBlock, displayNone, fillPattern] =
        [displayBlock] ++ displayNone :: [fillPattern] := rfl
    exact .declared last (by decide) (by decide) (by decide)
  · have last : [displayBlock, displayNone, fillPattern] =
        [displayBlock, displayNone] ++ fillPattern :: [] := rfl
    exact .declared last (by decide) (by decide) (by decide)

/-- Another declaration changes the property `style`, which is the whole attribute. -/
theorem not_styleProperty?_isKept : ¬ ∀ (e : Element) (segments : List Segment) (property : String),
    IsStyled e segments →
      (∀ value, styleProperty? e property = value ↔
        IsProperty e (declared segments) property value) ∧ IsKept e segments property := by
  intro claim
  have styled : IsStyled (displayed "display:none") [.plain displayNone] :=
    .written (Element.attribute?_eq_some_iff.mp (by decide +kernel))
  have styled' : IsStyled (displayed "display:none;fill:url(a:b)")
      ([.plain displayNone] ++ [.plain fillPattern]) :=
    .written (Element.attribute?_eq_some_iff.mp (by decide +kernel))
  have other : (Segment.plain fillPattern).DeclaresOther "style" := ⟨fillPattern, rfl, by decide⟩
  have edit : Edit "style" ([.plain displayNone] ++ [])
      ([.plain displayNone] ++ [.plain fillPattern]) := .add other
  have kept := (claim _ _ "style" styled).2 _ _ (agreeButStyle_displayed _ _) styled' (.single edit)
  exact absurd kept (by decide +kernel)

end Svg.Style
end LaserCut
