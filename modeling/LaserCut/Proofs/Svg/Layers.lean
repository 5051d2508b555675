import LaserCut.Proofs.Outcome
import LaserCut.Proofs.Svg.Places
import Mathlib.Data.List.Forall2

/-!
# Layers of a drawing

How the walks for different layers go together. `drawn` lists the places whose elements a walk
draws; `visits_eq_drawn` says that they are what the walk visits.

* `drawn_asking_some`: asking for a layer keeps the places in layers of that label, and no others;
* `curvesBelow_asking`: it keeps their curves, too, and does not fail where the whole drawing does
  not;
* `layers_isPartitioned`: so the layers of a drawing are apart, and together they are all of it but
  what stands in no layer, or in one without a label.
-/

namespace LaserCut.Svg

/-- The same walk, asked for another layer or for none. -/
def WalkOptions.asking {α : Type} (options : WalkOptions α) (label : Option String) :
    WalkOptions α :=
  { options with layer := label }

/-- The outermost layer that the element stands in has the label. -/
def Place.isIn (root : Element) (label : String) (p : Place) : Bool :=
  (p.layer? root).any fun e => layerLabel? e == some label

/-- The places whose elements are drawn, in document order. -/
def drawn (options : WalkOptions Float) (root : Element) : List Place :=
  ((places root).filter (·.isReached options.layer root)).filter (·.isDrawn options root)

/-- The walk draws the element of the place under the maps on its way. -/
def Place.IsVisited (options : WalkOptions Float) (p : Place) (v : Visit Float) : Prop :=
  ∃ transform, p.transform options = .ok transform ∧ v = .draw p.element transform

/-- The curves that the element of a place draws. -/
def Place.Draws (options : WalkOptions Float) (flip : Option Float) (p : Place)
    (curves : List (Curve Float)) : Prop :=
  ∃ transform, p.transform options = .ok transform ∧
    elementCurves p.element transform flip = .ok curves

/-! ## Joined results -/

section Collect

variable {γ δ ε : Type} {f : γ → Except ε (List δ)} {xs : List γ}

theorem exists_of_collect_eq_ok {ys : List δ} (h : collect f xs = .ok ys) {x : γ} (hx : x ∈ xs) :
    ∃ zs, f x = .ok zs := by
  induction xs generalizing ys with
  | nil => cases hx
  | cons a xs ih =>
    rw [collect_cons] at h
    obtain ⟨first, ha, h⟩ := Outcome.bind_eq_ok_iff.mp h
    obtain ⟨others, hxs, -⟩ := Outcome.bind_eq_ok_iff.mp h
    rcases List.mem_cons.mp hx with rfl | hx
    · exact ⟨first, ha⟩
    · exact ih hxs hx

theorem collect_eq_ok_of_forall {g : γ → List δ} (h : ∀ x ∈ xs, f x = .ok (g x)) :
    collect f xs = .ok (xs.flatMap g) := by
  induction xs with
  | nil => rfl
  | cons a xs ih =>
    rw [collect_cons, h a List.mem_cons_self, ih fun x hx => h x (List.mem_cons_of_mem _ hx)]
    rfl

/-- What has no results may be left out. -/
theorem collect_filter {keep : γ → Bool} (h : ∀ x ∈ xs, keep x = false → f x = .ok []) :
    collect f (xs.filter keep) = collect f xs := by
  induction xs with
  | nil => rfl
  | cons a xs ih =>
    have rest := ih fun x hx => h x (List.mem_cons_of_mem _ hx)
    rw [List.filter_cons]
    split
    · rw [collect_cons, collect_cons, rest]
    · rename_i out
      rw [collect_cons, h a List.mem_cons_self (Bool.eq_false_iff.mpr out), rest]
      rcases collect f xs with e | ys <;> rfl

end Collect

/-! ## What is visited -/

section Visits

variable {options : WalkOptions Float} {root : Element}

mutual

/-- Below an element the walk visits what is drawn there, if all maps can be read. -/
theorem visits_eq_drawnBelow : ∀ (e : Element) {entered path : List Element} {c : Context Float},
    c.Fits options entered path → entered ++ [e] = root :: path →
      (∀ p ∈ (placesBelow path e).filter (·.isReached options.layer root),
        ∃ transform, p.transform options = .ok transform) →
      List.Forall₂ (Place.IsVisited options)
        (((placesBelow path e).filter (·.isReached options.layer root)).filter
          (·.isDrawn options root))
        (visits options.drawHidden c e)
  | ⟨name, space, attributes, children⟩, entered, path, c, fits, he, readable => by
    rw [visits, fits.sought, enter?_soughtIn fits.admitted, he]
    rcases admitted : admits options.layer ((root :: path).find? isLayer)
    · rw [filter_placesBelow_eq_nil (.inr admitted)]
      exact .nil
    · exact visitsOfList_eq_drawnBelow children
        ⟨fits.shown, fits.transform, fits.visible, admitted, rfl⟩ readable

theorem visitsOfList_eq_drawnBelow : ∀ (es : List Element) {path : List Element}
    {c : Context Float}, c.Fits options (root :: path) path →
      (∀ p ∈ (placesOfList path es).filter (·.isReached options.layer root),
        ∃ transform, p.transform options = .ok transform) →
      List.Forall₂ (Place.IsVisited options)
        (((placesOfList path es).filter (·.isReached options.layer root)).filter
          (·.isDrawn options root))
        (visitsOfList options.drawHidden c es)
  | [], _, _, _, _ => .nil
  | e :: rest, path, c, fits, readable => by
    rw [placesOfList, List.filter_append] at readable
    rw [visitsOfList, placesOfList, List.filter_append, List.filter_append]
    refine List.rel_append ?_ (visitsOfList_eq_drawnBelow rest fits
      fun p hp => readable p (List.mem_append_right _ hp))
    rw [List.filter_cons, isReached_of_fits fits] at readable ⊢
    rcases shown : isSkipped e
    · rw [shown, if_pos Bool.not_false] at readable
      rw [if_neg Bool.false_ne_true, if_pos Bool.not_false]
      obtain ⟨transform, ht⟩ := readable _ (List.mem_append_left _ List.mem_cons_self)
      have child := fits.child shown ((transform_of_fits fits e).symm.trans ht)
      have below := visits_eq_drawnBelow e child rfl fun p hp =>
        readable p (List.mem_append_left _ (List.mem_cons_of_mem _ hp))
      rw [List.filter_cons, isDrawn_of_fits fits, ← transform_of_fits fits, ht]
      dsimp only
      split
      · exact .cons ⟨transform, ht, rfl⟩ below
      · exact below
    · rw [if_pos rfl, if_neg (by simp), filter_placesBelow_eq_nil]
      · exact .nil
      · left
        simp [shown]

end

/-- Before the root nothing has been entered. -/
theorem fits_context (options : WalkOptions Float) : options.context.Fits options [] [] :=
  ⟨rfl, rfl, rfl, by rcases options.layer <;> rfl, rfl⟩

/-- The walk visits what is drawn, in document order, if all maps can be read. -/
theorem visits_eq_drawn (options : WalkOptions Float)
    (readable : ∀ p ∈ (places root).filter (·.isReached options.layer root),
      ∃ transform, p.transform options = .ok transform) :
    List.Forall₂ (Place.IsVisited options) (drawn options root)
      (visits options.drawHidden options.context root) :=
  visits_eq_drawnBelow root (fits_context options) rfl readable

end Visits

/-! ## What is drawn of a layer -/

section Drawn

variable (options : WalkOptions Float) (root : Element)

/-- Asking for a layer keeps what is drawn in layers of that label. -/
theorem drawn_asking_some (label : String) :
    drawn (options.asking (some label)) root =
      (drawn (options.asking none) root).filter (·.isIn root label) := by
  simp only [drawn, List.filter_filter]
  refine List.filter_congr fun p _ => ?_
  simp only [Place.isReached, Place.isDrawn, Place.isIn, WalkOptions.asking, admits,
    Option.all_some, Option.all_none, Bool.true_and, Bool.and_true]
  rcases p.layer? root with _ | layer
  · simp
  · simp only [Option.any_some, Option.all_some]
    generalize (layerLabel? layer == some label) = matching
    rcases matching with _ | _ <;> simp

theorem drawn_asking_sublist (label : Option String) :
    List.Sublist (drawn (options.asking label) root) (drawn (options.asking none) root) := by
  rcases label with _ | label
  · exact List.Sublist.refl _
  · rw [drawn_asking_some]
    exact List.filter_sublist

theorem isReached_asking {label : Option String} {p : Place} (h : p.isReached label root = true) :
    p.isReached none root = true := by
  rw [Place.isReached, Bool.and_eq_true] at h
  rw [Place.isReached, h.1]
  rfl

variable {options root}

theorem isIn_iff {label : String} {p : Place} :
    p.isIn root label = true ↔
      ∃ layer, p.layer? root = some layer ∧ layerLabel? layer = some label := by
  rw [Place.isIn, Option.any_eq_true]
  simp only [beq_iff_eq]

/-- A place is in layers of one label only. -/
theorem label_unique {label other : String} {p : Place} (h : p.isIn root label = true)
    (h' : p.isIn root other = true) : label = other := by
  obtain ⟨layer, found, labelled⟩ := isIn_iff.mp h
  obtain ⟨layer', found', labelled'⟩ := isIn_iff.mp h'
  rw [found] at found'
  cases found'
  rw [labelled] at labelled'
  exact Option.some.inj labelled'

end Drawn

/-! ## Curves of a layer -/

section Curves

variable {options : WalkOptions Float} {root : Element}

/-- What is drawn at a place that is drawn. -/
theorem draws_of_curves {flip : Option Float} {p : Place} {curves : List (Curve Float)}
    (shown : p.isDrawn options root = true) (h : p.curves options root flip = .ok curves) :
    p.Draws options flip curves := by
  obtain ⟨transform, ht, h⟩ := Outcome.bind_eq_ok_iff.mp h
  rw [if_pos shown] at h
  exact ⟨transform, Outcome.mapError_eq_ok_iff.mp ht, h⟩

theorem curves_of_draws {flip : Option Float} {p : Place} {curves : List (Curve Float)}
    (shown : p.isDrawn options root = true) (h : p.Draws options flip curves) :
    p.curves options root flip = .ok curves := by
  obtain ⟨transform, ht, h⟩ := h
  rw [Place.curves, ht]
  show (if _ then _ else _) = _
  rw [if_pos shown, h]

/-- A place that is not drawn only needs a map that can be read. -/
theorem curves_of_not_isDrawn {flip : Option Float} {p : Place}
    (hidden : p.isDrawn options root = false)
    (readable : ∃ transform, p.transform options = .ok transform) :
    p.curves options root flip = .ok [] := by
  obtain ⟨transform, ht⟩ := readable
  rw [Place.curves, ht]
  show (if _ then _ else _) = _
  rw [hidden, if_neg Bool.false_ne_true]

/-- A walk succeeds if the places it reaches can be drawn one after the other. -/
theorem curvesBelow_eq_ok_iff {curves : List (Curve Float)} :
    curvesBelow options root = .ok curves ↔
      ∃ flip, flipHeight options root = .ok flip ∧ drawing options root flip = .ok curves := by
  have walk (flip : Option Float) :
      collect (Visit.curves flip) (visits options.drawHidden options.context root) =
        drawing options root flip :=
    collect_visits root (fits_context options) rfl
  rw [curvesBelow, ← funext walk]
  exact Outcome.bind_eq_ok_iff

/-- A walk that can read all maps, and the curves of all that is drawn, gives these curves. -/
theorem curvesBelow_of_draws (options : WalkOptions Float) {flip : Option Float}
    {curvesOf : Place → List (Curve Float)} (height : flipHeight options root = .ok flip)
    (readable : ∀ p ∈ (places root).filter (·.isReached options.layer root),
      ∃ transform, p.transform options = .ok transform)
    (draws : ∀ p ∈ drawn options root, p.Draws options flip (curvesOf p)) :
    curvesBelow options root = .ok ((drawn options root).flatMap curvesOf) := by
  refine curvesBelow_eq_ok_iff.mpr ⟨flip, height, ?_⟩
  rw [drawing, ← collect_filter fun p hp hidden => curves_of_not_isDrawn hidden (readable p hp)]
  exact collect_eq_ok_of_forall fun p hp => curves_of_draws (List.mem_filter.mp hp).2 (draws p hp)

/-- If a walk succeeds, then all maps can be read, and all that is drawn has curves. -/
theorem draws_of_curvesBelow (options : WalkOptions Float) {curves : List (Curve Float)}
    (walked : curvesBelow options root = .ok curves) :
    ∃ flip, ∃ curvesOf : Place → List (Curve Float), flipHeight options root = .ok flip ∧
      (∀ p ∈ (places root).filter (·.isReached options.layer root),
        ∃ transform, p.transform options = .ok transform) ∧
      ∀ p ∈ drawn options root, p.Draws options flip (curvesOf p) := by
  obtain ⟨flip, height, walked⟩ := curvesBelow_eq_ok_iff.mp walked
  refine ⟨flip, fun p => ((p.curves options root flip).toOption).getD [], height, fun p hp => ?_,
    fun p hp => ?_⟩
  · obtain ⟨zs, h⟩ := exists_of_collect_eq_ok walked hp
    obtain ⟨transform, ht, -⟩ := Outcome.bind_eq_ok_iff.mp h
    exact ⟨transform, Outcome.mapError_eq_ok_iff.mp ht⟩
  · obtain ⟨reached, shown⟩ := List.mem_filter.mp hp
    obtain ⟨zs, h⟩ := exists_of_collect_eq_ok walked reached
    dsimp only
    rw [h]
    exact draws_of_curves shown h

/-- If all maps of the whole drawing can be read, then so can those of a layer. -/
theorem readable_asking
    (readable : ∀ p ∈ (places root).filter (·.isReached none root),
      ∃ transform, p.transform options = .ok transform) (label : Option String) :
    ∀ p ∈ (places root).filter (·.isReached label root),
      ∃ transform, p.transform options = .ok transform := fun p hp =>
  have ⟨below, reached⟩ := List.mem_filter.mp hp
  readable p (List.mem_filter.mpr ⟨below, isReached_asking root reached⟩)

/-- Walks for layers give curves of the whole drawing. -/
theorem curvesBelow_asking {flip : Option Float} {curvesOf : Place → List (Curve Float)}
    (height : flipHeight options root = .ok flip)
    (readable : ∀ p ∈ (places root).filter (·.isReached none root),
      ∃ transform, p.transform options = .ok transform)
    (draws : ∀ p ∈ drawn (options.asking none) root, p.Draws options flip (curvesOf p))
    (label : Option String) :
    curvesBelow (options.asking label) root =
      .ok ((drawn (options.asking label) root).flatMap curvesOf) :=
  curvesBelow_of_draws (options.asking label) height (readable_asking readable label)
    fun p hp => draws p ((drawn_asking_sublist options root label).subset hp)

end Curves

/-! ## All layers together -/

/-- How the walk of a whole drawing and the walks of its layers go together, flipped alike.
`curvesOf` gives the curves of each place that is drawn. -/
structure IsPartitioned (options : WalkOptions Float) (root : Element) (flip : Option Float)
    (curvesOf : Place → List (Curve Float)) : Prop where
  height : flipHeight options root = .ok flip
  draws (p : Place) (shown : p ∈ drawn (options.asking none) root) :
    p.Draws options flip (curvesOf p)
  /-- Every walk visits just what it draws, and gives the curves of that in document order. -/
  walk (label : Option String) :
    List.Forall₂ (Place.IsVisited options) (drawn (options.asking label) root)
      (visits options.drawHidden (options.asking label).context root) ∧
    curvesBelow (options.asking label) root =
      .ok ((drawn (options.asking label) root).flatMap curvesOf)
  /-- What is drawn of a layer is drawn of the whole, in the same order. -/
  sublist (label : String) :
    List.Sublist (drawn (options.asking (some label)) root) (drawn (options.asking none) root)
  /-- Nothing is drawn of two layers. -/
  disjoint {label other : String} (different : label ≠ other) :
    List.Disjoint (drawn (options.asking (some label)) root)
      (drawn (options.asking (some other)) root)
  /-- What is drawn of the whole and of no layer stands in no layer, or in one without a label. -/
  unlabelled (p : Place) (shown : p ∈ drawn (options.asking none) root) :
    (∀ label, p ∉ drawn (options.asking (some label)) root) ↔
      p.layer? root = none ∨ ∃ layer, p.layer? root = some layer ∧ layerLabel? layer = none

theorem not_isIn_iff {root : Element} {p : Place} :
    (∀ label, p.isIn root label = false) ↔
      p.layer? root = none ∨ ∃ layer, p.layer? root = some layer ∧ layerLabel? layer = none := by
  simp only [Place.isIn]
  rcases p.layer? root with _ | layer
  · simp
  · simp [Option.eq_none_iff_forall_ne_some]

/-- If the whole of a drawing can be walked, then so can each of its layers, which draw parts of it
that are apart and leave nothing out but what stands in no layer or in one without a label. -/
theorem layers_isPartitioned {options : WalkOptions Float} {root : Element}
    {curves : List (Curve Float)} (walked : curvesBelow (options.asking none) root = .ok curves) :
    ∃ flip curvesOf, IsPartitioned options root flip curvesOf := by
  obtain ⟨flip, curvesOf, height, readable, draws⟩ :=
    draws_of_curvesBelow (options.asking none) walked
  refine ⟨flip, curvesOf, height, draws, fun label => ?_,
    fun label => drawn_asking_sublist options root (some label), fun different p hp hp' => ?_,
    fun p shown => ?_⟩
  · exact ⟨visits_eq_drawn (options.asking label) (readable_asking readable label),
      curvesBelow_asking height readable draws label⟩
  · rw [drawn_asking_some] at hp hp'
    exact different (label_unique (List.mem_filter.mp hp).2 (List.mem_filter.mp hp').2)
  · rw [← not_isIn_iff]
    simp only [drawn_asking_some, List.mem_filter, shown, true_and, Bool.not_eq_true]

/-- A layer inside another, a repeated label, one without a label, and a path in no layer. -/
def layeredRoot : Element :=
  let path (d : String) : Element := ⟨"path", none, [⟨none, "d", d⟩], []⟩
  let mode : Attribute := ⟨some inkscapeNamespace, "groupmode", "layer"⟩
  let layer (label : String) (children : List Element) : Element :=
    ⟨"g", none, [mode, ⟨some inkscapeNamespace, "label", label⟩], children⟩
  ⟨"svg", none, [⟨none, "height", "10"⟩],
    [layer "A" [path "M1,1L2,2", layer "B" [path "M2,2L3,3"]], layer "B" [path "M3,3L4,4"],
      ⟨"g", none, [mode], [path "M4,4L5,5"]⟩, path "M5,5L6,6", layer "A" [path "M6,6L7,7"]]⟩

theorem layers_isPartitioned_nested :
    ∃ curves : List (Curve Float),
      curvesBelow (WalkOptions.standard.asking none) layeredRoot = .ok curves ∧
      ∃ flip curvesOf, IsPartitioned WalkOptions.standard layeredRoot flip curvesOf := by
  obtain ⟨curves, walked⟩ :
      ∃ curves : List (Curve Float),
        curvesBelow (WalkOptions.standard.asking none) layeredRoot = .ok curves :=
    Outcome.isOk_iff.mp (by decide +kernel)
  exact ⟨curves, walked, layers_isPartitioned walked⟩

end LaserCut.Svg
