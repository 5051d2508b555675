import LaserCut.Conversion.Basic
import LaserCut.Proofs.Markup.RenamedDocument
import LaserCut.Proofs.Svg.Document

/-!
# Namespace prefixes of a drawing

A document with a namespace prefix renamed in all its tags is the same drawing: it has the same root
(`readRoot_renamed`) and the same program (`convert_renamed`).
-/

namespace LaserCut.Svg

open Markup

/-- A document that has a root is made of trees. -/
theorem exists_trees_of_readRoot {document : String} {root : Element}
    (parses : readRoot document = .ok root) :
    ∃ events trees, Event.read document = .ok events ∧ SpellsAll trees events := by
  cases read : Event.read document with
  | error e =>
    rw [readRoot, Element.read, read] at parses
    cases parses
  | ok events =>
    rw [readRoot_eq_rootOfEvents read] at parses
    rcases spellsAll_or_leavesOpen_of_read read with ⟨trees, spelt⟩ | ⟨tag, opened, left⟩
    · exact ⟨events, trees, rfl, spelt⟩
    · rw [rootOfEvents_of_leavesOpen left] at parses
      cases parses

theorem rootOfEvents_renamed {r : Renaming} {events : List Event} {trees : List RawElement}
    (spelt : SpellsAll trees events) (allowed : ∀ site ∈ sitesOfList [] trees, r.Allows site) :
    rootOfEvents (events.map r.event) = rootOfEvents events := by
  cases trees with
  | nil => rw [rootOfEvents_of_nil spelt, rootOfEvents_of_nil (Renaming.spellsAll spelt)]
  | cons tree later =>
    have renamed := Renaming.spellsAll (r := r) spelt
    rw [List.map_cons] at renamed
    rw [rootOfEvents_of_cons spelt, rootOfEvents_of_cons renamed]
    have first : ∀ site ∈ sites [] tree, r.Allows site := fun site mem =>
      allowed site (by rw [sitesOfList]; exact List.mem_append_left _ mem)
    have unbound : ∀ d ∈ scopeOf [], d.1 ≠ r.new := nofun
    exact congrArg Except.ok (Renaming.resolve_tree unbound tree first)

/-- A renamed document has the same root. -/
theorem readRoot_renamed {r : Renaming} {document : String} {events : List Event}
    {trees : List RawElement} (read : Event.read document = .ok events)
    (spelt : SpellsAll trees events) (allowed : ∀ site ∈ sitesOfList [] trees, r.Allows site) :
    readRoot (r.document document) = readRoot document := by
  have fresh : ∀ event ∈ events, ∀ tag ∈ event.tag?, ¬ tag.Mentions r.new := by
    intro event he tag ht
    have mem : tag ∈ (sitesOfList [] trees).map Site.tag := by
      rw [spelt.map_tag_sites]
      exact List.mem_filterMap.mpr ⟨event, he, ht⟩
    obtain ⟨site, hs, rfl⟩ := List.mem_map.mp mem
    exact (allowed site hs).fresh
  rw [readRoot_eq_rootOfEvents read, readRoot_eq_rootOfEvents (Event.read_document read fresh),
    rootOfEvents_renamed spelt allowed]

end LaserCut.Svg

namespace LaserCut.Conversion

open Markup

/-- Prefixes are only names: in every document that has a root, a prefix may be renamed to one that
occurs nowhere, if it has a namespace wherever it is used. Root and program stay the same. -/
theorem convert_renamed (r : Renaming) {document : String} {root : Element}
    (parses : Svg.readRoot document = .ok root) :
    ∃ events trees, Event.read document = .ok events ∧ SpellsAll trees events ∧
      ((∀ site ∈ sitesOfList [] trees, r.Allows site) →
        Svg.readRoot (r.document document) = .ok root ∧
          ∀ s : Settings Float, convert (r.document document) s = convert document s) := by
  obtain ⟨events, trees, read, spelt⟩ := Svg.exists_trees_of_readRoot parses
  refine ⟨events, trees, read, spelt, fun allowed => ?_⟩
  have same := Svg.readRoot_renamed read spelt allowed
  refine ⟨same.trans parses, fun s => ?_⟩
  rw [convert, convert, same]

/-- The prefix `p` replaced by `z`. -/
def renamingToZ : Renaming where
  old := "p"
  new := "z"
  isPrefix_old := by decide
  isPrefix_new := by decide

/-- A prefix declared again further in and after its first use, and a comment and a value that
have it in them. -/
theorem convert_renamed_shadowed :
    let document := "<p:svg xmlns:p='http://www.w3.org/2000/svg'><g p:a='p:a' xmlns:p='b'/>" ++
      "<!-- <p:g> --><p:path d='M1,1L2,2'/></p:svg>"
    let renamed := "<z:svg xmlns:z='http://www.w3.org/2000/svg'><g z:a='p:a' xmlns:z='b'/>" ++
      "<!-- <p:g> --><z:path d='M1,1L2,2'/></z:svg>"
    renamingToZ.document document = renamed ∧
      ∃ root, Svg.readRoot document = .ok root ∧ Svg.readRoot renamed = .ok root ∧
        ∀ s : Settings Float, convert renamed s = convert document s := by
  intro document renamed
  have text : renamingToZ.document document = renamed := by decide +kernel
  obtain ⟨root, parses⟩ : ∃ root, Svg.readRoot document = .ok root :=
    Outcome.isOk_iff.mp (by decide +kernel)
  obtain ⟨events, trees, read, spelt, same⟩ := convert_renamed renamingToZ parses
  have allowed : ((Event.read document).toOption.bind fun events => (forest events).toOption).map
      (fun trees => (sitesOfList [] trees).all (renamingToZ.Allows ·)) = some true := by
    decide +kernel
  rw [Outcome.toOption_eq_some_iff.mpr read, Option.bind_some,
    Outcome.toOption_eq_some_iff.mpr (forest_eq_ok_of_spellsAll spelt)] at allowed
  obtain ⟨again, programs⟩ := same fun site mem =>
    of_decide_eq_true (List.all_eq_true.mp (Option.some.inj allowed) site mem)
  rw [text] at again programs
  exact ⟨text, root, parses, again, programs⟩

end LaserCut.Conversion
