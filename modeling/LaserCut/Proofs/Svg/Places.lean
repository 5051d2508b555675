import LaserCut.Svg.Walk

/-!
# The places of a drawing

What is drawn, stated element by element. `places` lists the elements below a root in document
order, each with those it stands in; what an element draws depends on its place alone:

* `Place.isReached`: nothing on the way is passed over;
* `Place.isDrawn`: the layer asked for is found, and the nearest visibility says so;
* `Place.transform`: the maps on the way, the outermost first.

The walk draws what these say (`curvesBelow_eq_drawing`), and so has the first fault of a place that
is reached.
-/

namespace LaserCut.Svg

/-- An element below a root, and those it stands in, the outermost first and without the root. -/
structure Place where
  ancestors : List Element
  element : Element

mutual

/-- The places below an element that `path` leads to. -/
def placesBelow (path : List Element) : Element → List Place
  | ⟨_, _, _, children⟩ => placesOfList path children

/-- The places of siblings and below them. -/
def placesOfList (path : List Element) : List Element → List Place
  | [] => []
  | e :: rest => ⟨path, e⟩ :: placesBelow (path ++ [e]) e ++ placesOfList path rest

end

/-- The places below a root in document order. -/
def places (root : Element) : List Place := placesBelow [] root

/-- What an element says of its visibility. -/
def declaredVisibility? (e : Element) : Option Bool :=
  if hasStyle e "visibility" "visible" then some true
  else if hasStyle e "visibility" "hidden" || hasStyle e "visibility" "collapse" then some false
  else none

/-- The last element on a path to say anything decides. -/
def isVisibleAt (path : List Element) : Bool :=
  (path.reverse.findSome? declaredVisibility?).getD true

/-- The layer has the label asked for, if there is a layer and a label is asked for. -/
def admits (label : Option String) (layer : Option Element) : Bool :=
  label.all fun label => layer.all fun e => layerLabel? e == some label

namespace Place

def path (p : Place) : List Element := p.ancestors ++ [p.element]

/-- The outermost layer that an element stands in, which may be the root. -/
def layer? (root : Element) (p : Place) : Option Element := (root :: p.ancestors).find? isLayer

/-- Nothing on the way is passed over, and the outermost layer is the one asked for. -/
def isReached (label : Option String) (root : Element) (p : Place) : Bool :=
  p.path.all (!isSkipped ·) && admits label (p.layer? root)

/-- The element stands in the layer asked for, if there is one, and is visible or need not be. -/
def isDrawn (options : WalkOptions Float) (root : Element) (p : Place) : Bool :=
  (options.layer.all fun label => (p.layer? root).any fun e => layerLabel? e == some label) &&
    (options.drawHidden || isVisibleAt p.path)

/-- The maps on the way, inside the root's. -/
def transform (options : WalkOptions Float) (p : Place) : Except String (Transform Float) :=
  p.path.foldlM elementTransform options.rootTransform

/-- The curves of a place that is reached. Its map has to be readable even if it draws nothing. -/
def curves (options : WalkOptions Float) (root : Element) (flip : Option Float) (p : Place) :
    Except DocumentError (List (Curve Float)) := do
  let transform ← (p.transform options).mapError .invalidTransform
  if p.isDrawn options root then elementCurves p.element transform flip else .ok []

end Place

/-- The results for a list, joined in order, or the first error. -/
def collect {γ δ ε : Type} (f : γ → Except ε (List δ)) (xs : List γ) : Except ε (List δ) := do
  return (← xs.mapM f).flatten

/-- What a drawing draws: the curves of the places that are reached, in document order. -/
def drawing (options : WalkOptions Float) (root : Element) (flip : Option Float) :
    Except DocumentError (List (Curve Float)) :=
  collect (Place.curves options root flip) ((places root).filter (·.isReached options.layer root))

/-! ## Joined results -/

section Collect

variable {γ δ ε : Type} (f : γ → Except ε (List δ))

theorem collect_nil : collect f [] = .ok [] := rfl

theorem collect_cons (x : γ) (xs : List γ) :
    collect f (x :: xs) = do return (← f x) ++ (← collect f xs) := by
  rw [collect, collect, List.mapM_cons]
  rcases f x with e | ys
  · rfl
  · rcases xs.mapM f with e | yss <;> rfl

theorem collect_singleton (x : γ) : collect f [x] = f x := by
  rw [collect_cons, collect_nil]
  rcases f x with e | ys
  · rfl
  · exact congrArg Except.ok (List.append_nil ys)

theorem collect_append (xs zs : List γ) :
    collect f (xs ++ zs) = do return (← collect f xs) ++ (← collect f zs) := by
  induction xs with
  | nil =>
    rw [List.nil_append, collect_nil]
    rcases collect f zs with e | ys <;> rfl
  | cons x xs ih =>
    rw [List.cons_append, collect_cons, ih, collect_cons]
    rcases f x with e | ys
    · rfl
    · rcases collect f xs with e | yss
      · rfl
      · rcases collect f zs with e | yzs
        · rfl
        · exact congrArg Except.ok (List.append_assoc ..).symm

end Collect

/-! ## What stands below an element -/

mutual

theorem prefix_of_mem_placesBelow {p : Place} :
    ∀ {e : Element} {path : List Element}, p ∈ placesBelow path e → path <+: p.ancestors
  | ⟨_, _, _, _⟩, _, h => prefix_of_mem_placesOfList h

theorem prefix_of_mem_placesOfList {p : Place} :
    ∀ {es : List Element} {path : List Element}, p ∈ placesOfList path es → path <+: p.ancestors
  | [], _, h => nomatch h
  | e :: rest, path, h => by
    rw [placesOfList, List.cons_append, List.mem_cons, List.mem_append] at h
    rcases h with rfl | h | h
    · exact List.prefix_refl path
    · exact (List.prefix_append path [e]).trans (prefix_of_mem_placesBelow h)
    · exact prefix_of_mem_placesOfList h

end

/-- A layer that does not have the label asked for bars everything below it. -/
theorem not_admits_below {label : Option String} {outer inner : List Element}
    (h : outer <+: inner) (bad : admits label (outer.find? isLayer) = false) :
    admits label (inner.find? isLayer) = false := by
  obtain ⟨more, rfl⟩ := h
  rw [List.find?_append]
  rcases found : outer.find? isLayer with _ | e
  · rw [found] at bad
    rcases label <;> cases bad
  · rw [found] at bad
    exact bad

/-- Nothing is reached below an element that is passed over or the wrong layer. -/
theorem filter_placesBelow_eq_nil {label : Option String} {root e : Element}
    {path : List Element}
    (bad : path.all (!isSkipped ·) = false ∨
      admits label ((root :: path).find? isLayer) = false) :
    (placesBelow path e).filter (·.isReached label root) = [] := by
  refine List.filter_eq_nil_iff.mpr fun p hp => ?_
  have above := prefix_of_mem_placesBelow hp
  rw [Bool.not_eq_true, Place.isReached, Bool.and_eq_false_iff]
  rcases bad with bad | bad
  · obtain ⟨more, hp⟩ := above
    left
    rw [Place.path, ← hp, List.all_append, List.all_append, bad, Bool.false_and, Bool.false_and]
  · exact .inr (not_admits_below (List.cons_prefix_cons.mpr ⟨rfl, above⟩) bad)

/-! ## The walk -/

/-- The label of the layer still to be found inside the elements of a path. -/
def soughtIn (label : Option String) (path : List Element) : Option String :=
  if (path.find? isLayer).isSome then none else label

/-- A context of the walk says what the path to a place says: `path` without the root, and
`entered` with those elements, the root among them, whose layers have been looked at. -/
structure Context.Fits (options : WalkOptions Float) (entered path : List Element)
    (c : Context Float) : Prop where
  shown : path.all (!isSkipped ·) = true
  transform : path.foldlM elementTransform options.rootTransform = .ok c.transform
  visible : c.visible = isVisibleAt path
  admitted : admits options.layer (entered.find? isLayer) = true
  sought : c.sought = soughtIn options.layer entered

theorem isVisibleAt_append (path : List Element) (e : Element) :
    isVisibleAt (path ++ [e]) = isVisible (isVisibleAt path) e := by
  rw [isVisibleAt, List.reverse_append, List.reverse_singleton, List.singleton_append,
    List.findSome?_cons, declaredVisibility?, isVisible]
  rcases hasStyle e "visibility" "visible" <;>
    rcases hasStyle e "visibility" "hidden" || hasStyle e "visibility" "collapse" <;>
    simp [isVisibleAt]

/-- An element is entered unless it is the wrong layer. -/
theorem enter?_soughtIn {label : Option String} {entered : List Element}
    (admitted : admits label (entered.find? isLayer) = true) (e : Element) :
    enter? (soughtIn label entered) e =
      if admits label ((entered ++ [e]).find? isLayer) then some (soughtIn label (entered ++ [e]))
      else none := by
  simp only [soughtIn, List.find?_append, List.find?_singleton]
  generalize entered.find? isLayer = outer at admitted
  rcases outer with _ | outer
  · rcases label with _ | label
    · simp [enter?, admits]
    · rcases layer : isLayer e <;> simp [enter?, admits, layer]
  · simp [enter?, admitted]

section Walk

variable {options : WalkOptions Float} {root : Element} {flip : Option Float}

/-- The element is drawn from a context that fits when its place says so. -/
theorem isDrawn_of_fits {path : List Element} {c : Context Float}
    (fits : c.Fits options (root :: path) path) (e : Element) :
    Place.isDrawn options root ⟨path, e⟩ =
      ((options.drawHidden || isVisible c.visible e) && c.sought.isNone) := by
  have admitted := fits.admitted
  rw [Place.isDrawn, Place.layer?, Place.path, isVisibleAt_append, fits.visible, fits.sought,
    Bool.and_comm, soughtIn]
  congr 1
  generalize options.layer = label at admitted
  generalize (root :: path).find? isLayer = outer at admitted
  rcases label with _ | label
  · simp
  · rcases outer with _ | outer
    · rfl
    · simpa [admits] using admitted

theorem isReached_of_fits {path : List Element} {c : Context Float}
    (fits : c.Fits options (root :: path) path) (e : Element) :
    Place.isReached options.layer root ⟨path, e⟩ = !isSkipped e := by
  rw [Place.isReached, Place.path, Place.layer?, List.all_append, fits.shown, fits.admitted]
  simp

theorem transform_of_fits {path : List Element} {c : Context Float}
    (fits : c.Fits options (root :: path) path) (e : Element) :
    Place.transform options ⟨path, e⟩ = elementTransform c.transform e := by
  rw [Place.transform, Place.path, List.foldlM_append, fits.transform]
  show [e].foldlM elementTransform c.transform = _
  rw [List.foldlM_cons]
  rcases elementTransform c.transform e with text | transform <;> rfl

theorem Context.Fits.child {path : List Element} {c : Context Float}
    (fits : c.Fits options (root :: path) path) {e : Element} (shown : isSkipped e = false)
    {transform : Transform Float} (ht : elementTransform c.transform e = .ok transform) :
    Context.Fits options (root :: path) (path ++ [e])
      ⟨transform, isVisible c.visible e, c.sought⟩ where
  shown := by rw [List.all_append, fits.shown]; simp [shown]
  transform := (transform_of_fits fits e).trans ht
  visible := by rw [isVisibleAt_append, fits.visible]
  admitted := fits.admitted
  sought := fits.sought

mutual

/-- The walk below an element, from a context that does not know yet whether it is a layer. -/
theorem collect_visits : ∀ (e : Element) {entered path : List Element} {c : Context Float},
    c.Fits options entered path → entered ++ [e] = root :: path →
      collect (Visit.curves flip) (visits options.drawHidden c e) =
        collect (Place.curves options root flip)
          ((placesBelow path e).filter (·.isReached options.layer root))
  | ⟨name, space, attributes, children⟩, entered, path, c, fits, he => by
    rw [visits, fits.sought, enter?_soughtIn fits.admitted, he]
    rcases admitted : admits options.layer ((root :: path).find? isLayer)
    · rw [filter_placesBelow_eq_nil (.inr admitted)]
      rfl
    · exact collect_visitsOfList children
        ⟨fits.shown, fits.transform, fits.visible, admitted, rfl⟩

/-- The walk over siblings. -/
theorem collect_visitsOfList : ∀ (es : List Element) {path : List Element} {c : Context Float},
    c.Fits options (root :: path) path →
      collect (Visit.curves flip) (visitsOfList options.drawHidden c es) =
        collect (Place.curves options root flip)
          ((placesOfList path es).filter (·.isReached options.layer root))
  | [], _, _, _ => rfl
  | e :: rest, path, c, fits => by
    rw [visitsOfList, placesOfList, List.filter_append, collect_append, collect_append,
      collect_visitsOfList rest fits]
    congr 1
    rw [List.filter_cons, isReached_of_fits fits]
    rcases shown : isSkipped e
    · rw [if_neg Bool.false_ne_true, if_pos (Bool.not_false), collect_cons, Place.curves,
        transform_of_fits fits, isDrawn_of_fits fits]
      rcases ht : elementTransform c.transform e with text | transform
      · rfl
      · rw [← collect_visits e (fits.child shown ht) rfl, collect_append]
        congr 1
        show collect _ (if _ then _ else _) = if _ then _ else _
        split
        · exact collect_singleton (Visit.curves flip) (.draw e transform)
        · rfl
    · rw [if_pos rfl, if_neg (by simp), filter_placesBelow_eq_nil]
      · rfl
      · left
        simp [shown]

end

end Walk

/-- The walk draws the places that are reached, in document order: each under the maps on its way
if the layers and the visibility on its way allow it. The first fault of such a place wins. -/
theorem curvesBelow_eq_drawing (options : WalkOptions Float) (root : Element) :
    curvesBelow options root = flipHeight options root >>= drawing options root := by
  have fits : options.context.Fits options [] [] :=
    ⟨rfl, rfl, rfl, by rcases options.layer <;> rfl, rfl⟩
  rw [curvesBelow]
  congr 1
  funext flip
  exact collect_visits root fits rfl

end LaserCut.Svg
