import LaserCut.Markup.Forest
import LaserCut.Proofs.Outcome

/-!
# Serialised trees

Which sequences of events write down which trees of tags, and that they are read back.

* `Spells`, `SpellsAll`: the events of a tree and of a sequence of trees. An element is an opening
  and a closing tag around its children, or an empty tag if it has none, and there may be asides
  anywhere;
* `LeavesOpen`: events that end inside elements;
* `forest_eq_ok_of_spellsAll`, `forest_eq_error_of_leavesOpen`: what the two come to;
* `spellsAll_or_leavesOpen_of_read`: the events of a document that can be read are always of one of
  the two forms.
-/

namespace LaserCut.Markup

mutual

/-- The events write down the tree. -/
inductive Spells : RawElement → List Event → Prop
  | empty (tag : Tag) : Spells ⟨tag, []⟩ [.empty tag]
  | element (tag : Tag) {children : List RawElement} {events : List Event} :
    SpellsAll children events →
    Spells ⟨tag, children⟩ (.opening tag :: events ++ [.closing tag.name])

/-- The events write down the trees one after the other, with asides in between. -/
inductive SpellsAll : List RawElement → List Event → Prop
  | nil : SpellsAll [] []
  | aside {trees : List RawElement} {events : List Event} :
    SpellsAll trees events → SpellsAll trees (.aside :: events)
  | cons {tree : RawElement} {trees : List RawElement} {first events : List Event} :
    Spells tree first → SpellsAll trees events → SpellsAll (tree :: trees) (first ++ events)

end

/-- The events end inside elements with the given tags, the innermost first. -/
inductive LeavesOpen : List Tag → List Event → Prop
  | none {trees : List RawElement} {events : List Event} :
    SpellsAll trees events → LeavesOpen [] events
  | opening {opened : List Tag} {trees : List RawElement} {before inner : List Event} (tag : Tag) :
    LeavesOpen opened before → SpellsAll trees inner →
    LeavesOpen (tag :: opened) (before ++ .opening tag :: inner)

/-! ## Reading back -/

mutual

/-- The events of a tree make it one more sibling where they stand. -/
theorem Spells.foldl_step {tree : RawElement} {events : List Event} :
    Spells tree events → ∀ g : Growth,
      events.foldl Growth.step g = ⟨tree :: g.siblings, g.opened⟩
  | .empty _, _ => rfl
  | @Spells.element tag children _ h, g => by
    rw [List.cons_append, List.foldl_cons, List.foldl_append, h.foldl_step]
    show (⟨⟨tag, (children.reverse ++ []).reverse⟩ :: g.siblings, g.opened⟩ : Growth) = _
    rw [List.append_nil, List.reverse_reverse]

theorem SpellsAll.foldl_step {trees : List RawElement} {events : List Event} :
    SpellsAll trees events → ∀ g : Growth,
      events.foldl Growth.step g = ⟨trees.reverse ++ g.siblings, g.opened⟩
  | .nil, _ => rfl
  | .aside h, g => h.foldl_step g
  | .cons first rest, g => by
    rw [List.foldl_append, first.foldl_step, rest.foldl_step, List.reverse_cons, List.append_assoc]
    rfl

end

theorem forest_eq_ok_of_spellsAll {trees : List RawElement} {events : List Event}
    (h : SpellsAll trees events) : forest events = .ok trees := by
  rw [forest, h.foldl_step]
  simp

theorem LeavesOpen.opened_foldl_step {opened : List Tag} {events : List Event}
    (h : LeavesOpen opened events) :
    (events.foldl Growth.step ⟨[], []⟩).opened.map Prod.fst = opened := by
  induction h with
  | none h => rw [h.foldl_step, List.map_nil]
  | opening tag _ inner ih =>
    rw [List.foldl_append, List.foldl_cons, inner.foldl_step]
    show tag :: List.map Prod.fst _ = _
    rw [ih]

theorem forest_eq_error_of_leavesOpen {tag : Tag} {opened : List Tag} {events : List Event}
    (h : LeavesOpen (tag :: opened) events) : forest events = .error .unclosedElements := by
  have left := h.opened_foldl_step
  have nonempty : (events.foldl Growth.step ⟨[], []⟩).opened.isEmpty = false := by
    rw [List.isEmpty_eq_false_iff]
    intro none
    rw [none] at left
    cases left
  rw [forest, nonempty]
  rfl

/-! ## What can be read -/

theorem SpellsAll.append {trees later : List RawElement} {events rest : List Event}
    (h : SpellsAll later rest) :
    SpellsAll trees events → SpellsAll (trees ++ later) (events ++ rest)
  | .nil => h
  | .aside before => .aside (h.append before)
  | .cons spelt before => by
    rw [List.append_assoc]
    exact .cons spelt (h.append before)

theorem Spells.spellsAll {tree : RawElement} {events : List Event} (h : Spells tree events) :
    SpellsAll [tree] events := by
  simpa using SpellsAll.cons h .nil

theorem LeavesOpen.append {opened : List Tag} {trees : List RawElement} {events rest : List Event}
    (h : LeavesOpen opened events) (more : SpellsAll trees rest) :
    LeavesOpen opened (events ++ rest) := by
  cases h with
  | none h => exact .none (more.append h)
  | opening tag before inner =>
    rw [List.append_assoc]
    exact .opening tag before (more.append inner)

/-- One more event that nesting allows. -/
theorem LeavesOpen.nest {source rest : List Char} {opened : List Tag} {before : List Event}
    {event : Event} {names : List String} (h : LeavesOpen opened before)
    (allowed : nest source (opened.map Tag.name) event rest = .ok names) :
    ∃ tags, tags.map Tag.name = names ∧ LeavesOpen tags (before ++ [event]) := by
  cases event with
  | opening tag =>
    cases allowed
    exact ⟨tag :: opened, rfl, .opening tag h .nil⟩
  | empty tag =>
    cases allowed
    exact ⟨opened, rfl, h.append (Spells.empty tag).spellsAll⟩
  | aside =>
    cases allowed
    exact ⟨opened, rfl, h.append (.aside .nil)⟩
  | closing name =>
    cases h with
    | none _ => cases allowed
    | opening tag outer inner =>
      simp only [Markup.nest, List.map_cons] at allowed
      split at allowed
      · rename_i same
        cases allowed
        subst same
        rw [List.append_assoc]
        exact ⟨_, rfl, outer.append (Spells.element tag inner).spellsAll⟩
      · cases allowed

/-- What is left of a document inside open elements. -/
theorem LeavesOpen.events {source cs : List Char} {names : List String} {opened : List Tag}
    {before after : List Event} (h : LeavesOpen opened before)
    (inside : opened.map Tag.name = names) (read : events source names cs = .ok after) :
    ∃ tags, LeavesOpen tags (before ++ after) := by
  fun_induction Markup.events source names cs generalizing opened before after with
  | case1 =>
    cases read
    exact ⟨opened, by rwa [List.append_nil]⟩
  | case2 | case3 | case5 => cases read
  | case4 _ _ event _ _ _ names allowed ih =>
    rw [← inside] at allowed
    obtain ⟨tags, nested, grown⟩ := h.nest allowed
    obtain ⟨later, rest, rfl⟩ := Outcome.map_eq_ok_iff.mp read
    rw [List.append_cons]
    exact ih grown nested rest
  | case6 _ _ _ _ _ _ ih | case7 _ _ _ _ _ ih => exact ih h inside read

/-- The events of a document are trees, or end inside an element. -/
theorem spellsAll_or_leavesOpen_of_read {document : String} {events : List Event}
    (read : Event.read document = .ok events) :
    (∃ trees, SpellsAll trees events) ∨ ∃ tag opened, LeavesOpen (tag :: opened) events := by
  obtain ⟨tags, h⟩ := (LeavesOpen.none .nil).events rfl read
  cases tags with
  | nil =>
    cases h with
    | none trees => exact .inl ⟨_, trees⟩
  | cons tag opened => exact .inr ⟨tag, opened, h⟩

end LaserCut.Markup
