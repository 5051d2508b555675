import LaserCut.Proofs.Markup.Scoping
import LaserCut.Proofs.Markup.Serial
import LaserCut.Svg.Walk

/-!
# The root of a document

* `rootOfEvents`: the root of a document by its events;
* `rootOfEvents_isDescribed`: it is what the first tree stands for that the events write down, with
  names resolved by lexical scoping. There is none if there is no tree, or if an element is left
  open; and every document that can be read is of one of these forms.
-/

namespace LaserCut.Svg

open Markup

/-- The root of the document with the given events. -/
def rootOfEvents (events : List Event) : Except DocumentError Element :=
  match Element.ofEvents events with
  | .error e => .error (.markup e)
  | .ok none => .error .empty
  | .ok (some root) => .ok root

theorem readRoot_eq_rootOfEvents {document : String} {events : List Event}
    (read : Event.read document = .ok events) : readRoot document = rootOfEvents events := by
  rw [readRoot, Element.read, read]
  rfl

theorem rootOfEvents_of_nil {events : List Event} (h : SpellsAll [] events) :
    rootOfEvents events = .error .empty := by
  rw [rootOfEvents, Element.ofEvents, forest_eq_ok_of_spellsAll h]
  rfl

theorem rootOfEvents_of_cons {tree : RawElement} {later : List RawElement} {events : List Event}
    (h : SpellsAll (tree :: later) events) : rootOfEvents events = .ok (tree.resolve []) := by
  rw [rootOfEvents, Element.ofEvents, forest_eq_ok_of_spellsAll h]
  rfl

theorem rootOfEvents_of_leavesOpen {tag : Tag} {opened : List Tag} {events : List Event}
    (h : LeavesOpen (tag :: opened) events) :
    rootOfEvents events = .error (.markup .unclosedElements) := by
  rw [rootOfEvents, Element.ofEvents, forest_eq_error_of_leavesOpen h]
  rfl

/-- A drawing of one path. -/
theorem readRoot_path {document : String} (d : String) (read : Event.read document =
    .ok [.opening ⟨"svg", []⟩, .empty ⟨"path", [("d", d)]⟩, .closing "svg"]) :
    readRoot document =
      .ok ⟨"svg", none, [], [⟨"path", none, [⟨none, "d", unescaped d⟩], []⟩]⟩ := by
  have spelt : SpellsAll [⟨⟨"svg", []⟩, [⟨⟨"path", [("d", d)]⟩, []⟩]⟩]
      [.opening ⟨"svg", []⟩, .empty ⟨"path", [("d", d)]⟩, .closing "svg"] :=
    (Spells.element ⟨"svg", []⟩ (Spells.empty _).spellsAll).spellsAll
  rw [readRoot_eq_rootOfEvents read, rootOfEvents_of_cons spelt]
  simp only [RawElement.resolve, List.map_cons, List.map_nil]
  rfl

/-- The root of a document is the element that the first of its trees stands for, and trees after it
do not count. A document without a tree has no root, and neither has one that ends inside an
element. There is no other kind of document among those that can be read. -/
theorem rootOfEvents_isDescribed :
    (∀ tree later events, SpellsAll (tree :: later) events →
      ∃ root, rootOfEvents events = .ok root ∧ ∀ e, Describes [] tree e ↔ e = root) ∧
    (∀ events, SpellsAll [] events → rootOfEvents events = .error .empty) ∧
    (∀ tag opened events, LeavesOpen (tag :: opened) events →
      rootOfEvents events = .error (.markup .unclosedElements)) ∧
    ∀ document events, Event.read document = .ok events →
      readRoot document = rootOfEvents events ∧
      ((∃ trees, SpellsAll trees events) ∨ ∃ tag opened, LeavesOpen (tag :: opened) events) := by
  refine ⟨fun tree _ _ h => ?_, fun _ => rootOfEvents_of_nil, fun _ _ _ =>
    rootOfEvents_of_leavesOpen, fun _ _ read =>
    ⟨readRoot_eq_rootOfEvents read, spellsAll_or_leavesOpen_of_read read⟩⟩
  exact ⟨_, rootOfEvents_of_cons h, fun e => describes_iff tree⟩

/-- A prefix declared again further in, a declaration and a second tree that do not count, and an
element left open. -/
theorem rootOfEvents_isDescribed_nested :
    let document :=
      "<?xml?><p:svg xmlns:p='a' xmlns:q='b'><p:g xmlns:p='c' q:x='&lt;'/></p:svg><g/>"
    let inner : Tag := ⟨"p:g", [("xmlns:p", "c"), ("q:x", "&lt;")]⟩
    let outer : Tag := ⟨"p:svg", [("xmlns:p", "a"), ("xmlns:q", "b")]⟩
    let events : List Event :=
      [.aside, .opening outer, .empty inner, .closing "p:svg", .empty ⟨"g", []⟩]
    Event.read document = .ok events ∧
      SpellsAll [⟨outer, [⟨inner, []⟩]⟩, ⟨⟨"g", []⟩, []⟩] events ∧
      (∃ root, rootOfEvents events = .ok root ∧
        ∀ e, Describes [] ⟨outer, [⟨inner, []⟩]⟩ e ↔ e = root) ∧
      SpellsAll [] [.aside] ∧ rootOfEvents [.aside] = .error .empty ∧
      LeavesOpen [outer] [.opening outer] ∧
      rootOfEvents [.opening outer] = .error (.markup .unclosedElements) ∧
      readRoot document = rootOfEvents events := by
  intro document inner outer events
  have read : Event.read document = .ok events :=
    Outcome.toOption_eq_some_iff.mp (by decide +kernel)
  have trees : SpellsAll [⟨outer, [⟨inner, []⟩]⟩, ⟨⟨"g", []⟩, []⟩] events :=
    .aside (.cons (.element outer (Spells.empty inner).spellsAll) (Spells.empty _).spellsAll)
  have none : SpellsAll [] [.aside] := .aside .nil
  have left : LeavesOpen [outer] [.opening outer] := .opening outer (.none .nil) .nil
  obtain ⟨described, empty, unclosed, reading⟩ := rootOfEvents_isDescribed
  exact ⟨read, trees, described _ _ _ trees, none, empty _ none, left, unclosed _ _ _ left,
    (reading _ _ read).1⟩

end LaserCut.Svg
