import LaserCut.Proofs.Conversion.Refusals
import LaserCut.Proofs.Svg.Layers

/-!
# Converting one layer

Settings that name a layer convert what the whole drawing draws in the outermost layers of that
label. The name is trimmed first and labels are not, so a label with blanks at its ends cannot be
asked for.

* `convert_convertsLayer`: what is converted, by the trimmed name;
* `not_convertsLayer`: it need not be what stands in the layers that the name itself labels.
-/

namespace LaserCut

/-- The same settings with another name of a layer, or with none. -/
def Settings.asking {α : Type} (s : Settings α) (layerName : Option String) : Settings α :=
  { s with layerName }

namespace Conversion

open Gcode
open Svg (Place drawn layerLabel? isLayer places flipHeight)

/-- How the whole of a drawing is walked, whatever layer the settings name. -/
def wholeWalk (s : Settings Float) (bed : Point Float) : Svg.WalkOptions Float :=
  walkOptions (s.asking none) bed

/-- With `name` for the layer's name the drawing has a program, and it is the program for what the
whole drawing draws in the outermost layers with the given label. -/
def ConvertsLayer (svg : String) (s : Settings Float) (name label : String) : Prop :=
  ∃ root bed flip, ∃ curvesOf : Place → List (Curve Float), ∃ is,
    Svg.readRoot svg = .ok root ∧ bedSize root s = .ok bed ∧
    flipHeight (wholeWalk s bed) root = .ok flip ∧
    (∀ p ∈ drawn (wholeWalk s bed) root, p.Draws (wholeWalk s bed) flip (curvesOf p)) ∧
    program s (((drawn (wholeWalk s bed) root).filter (·.isIn root label)).flatMap curvesOf) =
      .ok is ∧
    convert svg (s.asking (some name)) = .ok (is.map (dialect s).line)

/-- A conversion that succeeds in every stage succeeds. -/
theorem convert_of_stages {svg : String} {s : Settings Float} {root : Element}
    {curves : List (Curve Float)} {is : List (Instruction Float)}
    (read : Svg.readRoot svg = .ok root) (valid : s.validated = .ok s)
    (placed : placedCurves root s = .ok curves) (written : program s curves = .ok is) :
    convert svg s = .ok (is.map (dialect s).line) := by
  have through : convertRoot root s = .ok is :=
    Outcome.bind_eq_ok_iff.mpr ⟨s, Outcome.mapError_eq_ok_iff.mpr valid,
      Outcome.bind_eq_ok_iff.mpr ⟨curves, Outcome.mapError_eq_ok_iff.mpr placed,
        Outcome.mapError_eq_ok_iff.mpr written⟩⟩
  exact Outcome.bind_eq_ok_iff.mpr ⟨root, Outcome.mapError_eq_ok_iff.mpr read,
    Outcome.bind_eq_ok_iff.mpr ⟨is, through, rfl⟩⟩

/-- No check is about the name of a layer. -/
theorem validated_asking {s : Settings Float}
    (valid : (s.asking none).validated = .ok (s.asking none)) (layerName : Option String) :
    (s.asking layerName).validated = .ok (s.asking layerName) := by
  have faultless : (s.asking layerName).fault? = none := by
    show (s.asking none).fault? = none
    rw [Settings.validated] at valid
    split at valid
    · assumption
    · cases valid
  rw [Settings.validated, faultless]

theorem layer?_asking {s : Settings Float} {name : String} (nonblank : Text.trimmed name ≠ "") :
    (s.asking (some name)).layer? = some (Text.trimmed name) := by
  rw [Settings.layer?, Settings.asking, Option.map_some, Option.filter_some]
  simp [nonblank]

theorem walkOptions_asking {s : Settings Float} {name : String}
    (nonblank : Text.trimmed name ≠ "") (bed : Point Float) :
    walkOptions (s.asking (some name)) bed =
      (wholeWalk s bed).asking (some (Text.trimmed name)) := by
  rw [walkOptions, layer?_asking nonblank]
  rfl

/-- A drawing that can be converted as a whole can be converted by layers, and the name of a layer
stands for the label that is the name without the blanks at its ends. -/
theorem convert_convertsLayer {svg : String} {s : Settings Float} {lines : List String}
    (whole : convert svg (s.asking none) = .ok lines) {name : String}
    (nonblank : Text.trimmed name ≠ "") : ConvertsLayer svg s name (Text.trimmed name) := by
  obtain ⟨root, curves, -, read, valid, placed, -, -, -⟩ := stages_of_convert whole
  obtain ⟨bed, size, walked⟩ := Outcome.bind_eq_ok_iff.mp placed
  obtain ⟨flip, curvesOf, height, readable, draws⟩ :=
    Svg.draws_of_curvesBelow (wholeWalk s bed) walked
  have ⟨is, written⟩ := exists_program Binary64.zero_le_one Binary64.one_le_one s
    (((drawn (wholeWalk s bed) root).filter (·.isIn root (Text.trimmed name))).flatMap curvesOf)
  refine ⟨root, bed, flip, curvesOf, is, read, size, height, draws, written,
    convert_of_stages read (validated_asking valid _)
      (Outcome.bind_eq_ok_iff.mpr ⟨bed, size, ?_⟩) written⟩
  rw [walkOptions_asking nonblank, Svg.curvesBelow_asking height readable draws,
    Svg.drawn_asking_some]
  rfl

/-! ## A label with blanks -/

/-- A drawing of one line in a layer. -/
def layerDocument (label : String) : String :=
  "<svg xmlns:i=\"http://www.inkscape.org/namespaces/inkscape\">" ++
    "<g i:groupmode=\"layer\" i:label=\"" ++ label ++ "\"><path d=\"M1,1L2,2\"/></g></svg>"

/-- Its root. -/
def layerRoot (label : String) : Element :=
  ⟨"svg", none, [],
    [⟨"g", none, [⟨some Svg.inkscapeNamespace, "groupmode", "layer"⟩,
      ⟨some Svg.inkscapeNamespace, "label", label⟩],
      [⟨"path", none, [⟨none, "d", "M1,1L2,2"⟩], []⟩]⟩]⟩

open Markup in
theorem readRoot_layer {label : String} (plain : '&' ∉ label.toList)
    (read : Event.read (layerDocument label) = .ok
      [.opening ⟨"svg", [("xmlns:i", Svg.inkscapeNamespace)]⟩,
        .opening ⟨"g", [("i:groupmode", "layer"), ("i:label", label)]⟩,
        .empty ⟨"path", [("d", "M1,1L2,2")]⟩, .closing "g", .closing "svg"]) :
    Svg.readRoot (layerDocument label) = .ok (layerRoot label) := by
  have spelt : SpellsAll [⟨⟨"svg", [("xmlns:i", Svg.inkscapeNamespace)]⟩,
      [⟨⟨"g", [("i:groupmode", "layer"), ("i:label", label)]⟩,
        [⟨⟨"path", [("d", "M1,1L2,2")]⟩, []⟩]⟩]⟩] _ :=
    (Spells.element _ (Spells.element _ (Spells.empty _).spellsAll).spellsAll).spellsAll
  rw [Svg.readRoot_eq_rootOfEvents read]
  refine (Svg.rootOfEvents_of_cons spelt).trans (congrArg Except.ok ?_)
  have scope : Tag.extend ⟨"svg", [("xmlns:i", Svg.inkscapeNamespace)]⟩ [] =
      [("i", Svg.inkscapeNamespace)] := by
    show [("i", unescaped Svg.inkscapeNamespace)] = _
    rw [unescaped_of_not_mem (by decide)]
  have attributes : Tag.resolvedAttributes ⟨"g", [("i:groupmode", "layer"), ("i:label", label)]⟩
      [("i", Svg.inkscapeNamespace)] = [⟨some Svg.inkscapeNamespace, "groupmode", "layer"⟩,
        ⟨some Svg.inkscapeNamespace, "label", label⟩] := by
    show [Attribute.mk (some Svg.inkscapeNamespace) "groupmode" (unescaped "layer"),
      Attribute.mk (some Svg.inkscapeNamespace) "label" (unescaped label)] = _
    rw [unescaped_of_not_mem (by decide), unescaped_of_not_mem plain]
  have path : Tag.resolvedAttributes ⟨"path", [("d", "M1,1L2,2")]⟩ [("i", Svg.inkscapeNamespace)] =
      [⟨none, "d", "M1,1L2,2"⟩] := by
    show [Attribute.mk none "d" (unescaped "M1,1L2,2")] = _
    rw [unescaped_of_not_mem (by decide)]
  have inside : Tag.extend ⟨"g", [("i:groupmode", "layer"), ("i:label", label)]⟩
      [("i", Svg.inkscapeNamespace)] = [("i", Svg.inkscapeNamespace)] := rfl
  have below : Tag.extend ⟨"path", [("d", "M1,1L2,2")]⟩ [("i", Svg.inkscapeNamespace)] =
      [("i", Svg.inkscapeNamespace)] := rfl
  simp only [RawElement.resolve, List.map_cons, List.map_nil, scope, inside, below, attributes,
    path]
  rfl

/-- The drawing can be converted as a whole. -/
theorem exists_convert_layer {label : String}
    (read : Svg.readRoot (layerDocument label) = .ok (layerRoot label))
    (through : (convertRoot (layerRoot label) (Settings.standard.asking none)).isOk = true) :
    ∃ lines, convert (layerDocument label) (Settings.standard.asking none) = .ok lines := by
  obtain ⟨is, written⟩ := Outcome.isOk_iff.mp through
  exact ⟨_, Outcome.bind_eq_ok_iff.mpr ⟨_, Outcome.mapError_eq_ok_iff.mpr read,
    Outcome.bind_eq_ok_iff.mpr ⟨is, written, rfl⟩⟩⟩

theorem readRoot_layer_plain : Svg.readRoot (layerDocument "A") = .ok (layerRoot "A") :=
  readRoot_layer (by decide) (Outcome.toOption_eq_some_iff.mp (by decide +kernel))

theorem readRoot_layer_padded : Svg.readRoot (layerDocument " A ") = .ok (layerRoot " A ") :=
  readRoot_layer (by decide) (Outcome.toOption_eq_some_iff.mp (by decide +kernel))

/-- A name with blanks stands for the label without. -/
theorem convert_convertsLayer_plain :
    ∃ lines, convert (layerDocument "A") (Settings.standard.asking none) = .ok lines ∧
      Text.trimmed " A " ≠ "" ∧
      ConvertsLayer (layerDocument "A") Settings.standard " A " (Text.trimmed " A ") := by
  obtain ⟨lines, whole⟩ := exists_convert_layer readRoot_layer_plain (by decide +kernel)
  have nonblank : Text.trimmed " A " ≠ "" := by decide
  exact ⟨lines, whole, nonblank, convert_convertsLayer whole nonblank⟩

/-- A layer that stands in no other layer has the label. -/
def HasLayer (root : Element) (label : String) : Prop :=
  isLayer root = true ∧ layerLabel? root = some label ∨
    ∃ p ∈ places root, p.layer? root = none ∧ isLayer p.element = true ∧
      layerLabel? p.element = some label

/-- More is written for a drawing than for nothing. -/
theorem length_program_lt {s : Settings Float} (valid : s.validated = .ok s)
    (proper : (tool s).Proper) {curves : List (Curve Float)} (ne : curves ≠ [])
    {empty is : List (Instruction Float)} (nothing : program s [] = .ok empty)
    (written : program s curves = .ok is) : empty.length < is.length := by
  have speed := Binary64.beq_self (Binary64.isNaN_of_isFinite (isFinite_cuttingSpeed valid))
  obtain ⟨header, footer, framed, rfl⟩ := program_eq Binary64.zero_le_one Binary64.one_le_one speed
    (one_le_passes valid) proper nothing
  obtain ⟨header', footer', framed', rfl⟩ := program_eq Binary64.zero_le_one Binary64.one_le_one
    speed (one_le_passes valid) proper written
  rw [framed] at framed'
  cases framed'
  obtain ⟨front, last⟩ := exists_flatten_passesOf (motion s) ne s.passes
  have body : bodyOf (motion s) curves ≠ [] := fun none =>
    filter_bodyOf_ne_nil (dialect s) (motion s) ne (by rw [none]; rfl)
  have moves := List.length_pos_iff.mpr body
  rw [flatten_passesOf_nil, last]
  simp only [List.length_append, List.length_nil]
  omega

/-- No layer has the label without blanks, so nothing is drawn. -/
theorem exists_convert_padded :
    ∃ is, program Settings.standard [] = .ok is ∧
      convert (layerDocument " A ") (Settings.standard.asking (some " A ")) =
        .ok (is.map (dialect Settings.standard).line) := by
  have ⟨is, written⟩ := exists_program Binary64.zero_le_one Binary64.one_le_one Settings.standard []
  have nothing : (placedCurves (layerRoot " A ")
      (Settings.standard.asking (some " A "))).toOption.any List.isEmpty = true := by decide +kernel
  obtain ⟨curves, placed, empty⟩ := (Option.any_eq_true _ _).mp nothing
  rw [List.isEmpty_iff.mp empty] at placed
  exact ⟨is, written,
    convert_of_stages readRoot_layer_padded rfl (Outcome.toOption_eq_some_iff.mp placed) written⟩

/-- A layer cannot be asked for by a label with blanks at its ends. -/
theorem not_convertsLayer : ¬ ∀ (svg : String) (s : Settings Float) (root : Element)
    (lines : List String) (label : String),
    Svg.readRoot svg = .ok root → convert svg (s.asking none) = .ok lines → HasLayer root label →
      Text.trimmed label ≠ "" → ConvertsLayer svg s label label := by
  intro claim
  obtain ⟨lines, whole⟩ := exists_convert_layer readRoot_layer_padded (by decide +kernel)
  have nonblank : Text.trimmed " A " ≠ "" := by decide
  have labelled : HasLayer (layerRoot " A ") " A " :=
    .inr ⟨_, .head _, rfl, by decide +kernel, by decide +kernel⟩
  obtain ⟨root, bed, flip, curvesOf, is, read, size, height, draws, written, through⟩ :=
    claim _ _ _ _ _ readRoot_layer_padded whole labelled nonblank
  rw [readRoot_layer_padded] at read
  cases read
  cases size
  cases height
  -- Nothing stands in a layer of the trimmed label, but the line stands in the layer.
  obtain ⟨empty, nothing, through'⟩ := exists_convert_padded
  have same := congrArg List.length (Except.ok.inj (through.symm.trans through'))
  rw [List.length_map, List.length_map] at same
  let bed : Point Float := ⟨Settings.standard.bedWidth, Settings.standard.bedHeight⟩
  have inside : ((drawn (wholeWalk Settings.standard bed) (layerRoot " A ")).filter
      (·.isIn (layerRoot " A ") " A ")).any (fun p =>
        (p.curves (wholeWalk Settings.standard bed) (layerRoot " A ")
          (some bed.y)).toOption.any (!·.isEmpty)) = true := by decide +kernel
  obtain ⟨p, mem, some_curves⟩ := List.any_eq_true.mp inside
  obtain ⟨shown, -⟩ := List.mem_filter.mp mem
  rw [Svg.curves_of_draws (List.mem_filter.mp shown).2 (draws p shown)] at some_curves
  have ne : ((drawn (wholeWalk Settings.standard bed) (layerRoot " A ")).filter
      (·.isIn (layerRoot " A ") " A ")).flatMap curvesOf ≠ [] := by
    intro none
    have empty := List.flatMap_eq_nil_iff.mp none p mem
    rw [empty] at some_curves
    cases some_curves
  have more := length_program_lt (s := Settings.standard) rfl switchesApart_burning.proper ne
    nothing written
  omega

end Conversion
end LaserCut
