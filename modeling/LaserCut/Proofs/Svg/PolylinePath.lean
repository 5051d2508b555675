import LaserCut.Proofs.Svg.StraightShapes
import LaserCut.Proofs.Text.Literals

/-!
# Polylines and paths through the same points

The list of points of a polyline, and path data that begins with a move and goes on with the same
text. The list is cut at blanks and commas, and each field must be a number; path data takes the
longest numeral at each place, and needs nothing between two numerals where the second one begins
with a sign or a point.

* `forall₂_fields`: if all fields are numbers, they are those that path data takes;
* `exists_lineRun_of_spells`: path data without letters is a move and lines;
* `polyline_draws_path`: the polyline draws the same lines if its fields are finite numbers; if one
  is no number, it draws nothing.

The second case exists (`not_polyline_draws_path`).
-/

namespace LaserCut.PathData

/-! ## Fields -/

theorem isListSeparator_of_mem {seps : List Char} (h : Separators seps) :
    ∀ c ∈ seps, Text.isListSeparator c = true := by
  intro c hc
  have mem := h c hc
  simp only [List.mem_cons, List.not_mem_nil, or_false] at mem
  rcases mem with rfl | rfl | rfl | rfl | rfl | rfl <;> rfl

/-- Numbers that a text spells are its fields, if all of its fields are numbers. -/
theorem forall₂_fields {ls : List Literal} {cs rest : List Char}
    (h : SpellsArguments (ls.map .number) cs rest) (ends : Separators rest)
    (numbers : ∀ field ∈ Text.fields Text.isListSeparator cs,
      ∃ l, Literal.ofChars? field = some l) :
    List.Forall₂ (fun field l => Literal.ofChars? field = some l)
      (Text.fields Text.isListSeparator cs) ls := by
  induction ls generalizing cs with
  | nil =>
    obtain rfl := spellsArguments_nil_iff.mp h
    have none : Text.fields Text.isListSeparator cs = [] := by
      rw [← List.append_nil cs, Text.fields_append (isListSeparator_of_mem ends)]
      rfl
    rw [none]
    exact .nil
  | cons l ls ih =>
    rcases h with _ | ⟨seps, token, after⟩
    rw [Text.fields_append (isListSeparator_of_mem seps)] at numbers ⊢
    obtain ⟨c, tail, rfl, starts⟩ := startsNumber_of_token token
    obtain ⟨longest⟩ := token
    obtain ⟨field, tail, whole, outside, fields⟩ :=
      Text.exists_field (isListSeparator_of_startsNumber starts) tail
    rw [fields, List.forall_mem_cons] at numbers
    obtain ⟨l, number⟩ := numbers.1
    have read := Literal.read_eq_some_iff.mpr ⟨_, longest, rfl⟩
    rw [whole] at read
    -- All of the field is a numeral, so the longest one does not stop inside it.
    rcases read_field number outside with same | none
    · obtain ⟨rfl, rfl⟩ := Prod.mk.inj (Option.some.inj (same.symm.trans read))
      rw [fields]
      exact .cons number (ih after numbers.2)
    · exact absurd (none.symm.trans read) nofun

/-! ## Commands -/

theorem suffix_of_spellsArguments {as : List Argument} {cs rest : List Char}
    (h : SpellsArguments as cs rest) : rest <:+ cs := by
  induction h with
  | nil => exact List.suffix_refl _
  | @cons a as seps cs mid rest _ token _ ih =>
    refine ih.trans (List.IsSuffix.trans ?_ (List.suffix_append seps cs))
    cases token with
    | number longest => exact longest.eq_append ▸ List.suffix_append _ _
    | zero | one => exact List.suffix_cons _ _

/-- A text whose only letters are the marks of exponents. -/
def HasNoCommands (cs : List Char) : Prop :=
  ∀ c ∈ cs, c.isAlpha = true → c = 'e' ∨ c = 'E'

theorem hasNoCommands_of_all {cs : List Char}
    (h : cs.all (fun c => !c.isAlpha || c == 'e' || c == 'E') = true) : HasNoCommands cs := by
  intro c hc letter
  have := List.all_eq_true.mp h c hc
  simpa [letter] using this

theorem HasNoCommands.toChar_not_mem {cs : List Char} (h : HasNoCommands cs) (l : Letter) :
    l.toChar ∉ cs := by
  intro mem
  have mark := h _ mem (isAlpha_toChar l)
  obtain ⟨verb, relative⟩ := l
  revert mark
  cases verb <;> cases relative <;> decide

theorem HasNoCommands.of_suffix {cs rest : List Char} (h : HasNoCommands cs)
    (suffix : rest <:+ cs) : HasNoCommands rest :=
  fun c hc => h c (suffix.subset hc)

theorem exists_lineTo {s : Segment Literal} (h : s.verb = .lineTo) : ∃ p, s = .lineTo p := by
  cases s <;> first | exact ⟨_, rfl⟩ | cases h

theorem exists_moveTo {s : Segment Literal} (h : s.verb = .moveTo) : ∃ p, s = .moveTo p := by
  cases s <;> first | exact ⟨_, rfl⟩ | cases h

/-- After a move or a line, a text without letters goes on with lines. -/
theorem exists_lines_of_spells {cmds : List (Command Literal)} :
    ∀ {previous : Letter} {cs : List Char}, previous.repeated = some ⟨.lineTo, false⟩ →
      HasNoCommands cs → Spells (some previous) cmds cs →
      ∃ (points : List (Point Literal)) (rest : List Char),
        cmds = points.map (fun p => Svg.lineTo p.x p.y) ∧
        SpellsArguments ((Svg.coordinates points).map .number) cs rest ∧ Separators rest := by
  induction cmds with
  | nil =>
    rintro previous cs - - ⟨ends⟩
    exact ⟨[], cs, rfl, .nil, ends⟩
  | cons c cmds ih =>
    rintro previous cs line bare (_ | ⟨first, later⟩)
    cases first with
    | letter _ _ _ => exact absurd (by simp) (bare.toChar_not_mem c.letter)
    | repeated same repeats arguments =>
      obtain rfl := Option.some.inj same
      have letter : c.letter = ⟨.lineTo, false⟩ :=
        Option.some.inj ((repeated_eq_some_iff.mpr repeats).symm.trans line)
      obtain ⟨relative, segment⟩ := c
      obtain ⟨verb, rfl⟩ := Letter.mk.inj letter
      obtain ⟨p, rfl⟩ := exists_lineTo verb
      obtain ⟨points, rest, rfl, spells, ends⟩ :=
        ih rfl (bare.of_suffix (suffix_of_spellsArguments arguments)) later
      exact ⟨p :: points, rest, rfl, spellsArguments_append_iff.mpr ⟨_, arguments, spells⟩, ends⟩

/-- The first command of path data that begins with the letter of a move. -/
theorem exists_move_of_spellsCommand {c : Command Literal} {cs rest : List Char}
    (h : SpellsCommand none c ('M' :: ' ' :: cs) rest) :
    ∃ p, c = ⟨false, .moveTo p⟩ ∧ SpellsArguments (pointArguments p) cs rest := by
  generalize text : 'M' :: ' ' :: cs = whole at h
  cases h with
  | repeated none _ _ => cases none
  | letter separators move arguments =>
    have skipped := congrArg skipSeparators text
    rw [skipSeparators_append separators, skipSeparators_cons (isSeparator_toChar _),
      skipSeparators_cons rfl] at skipped
    obtain ⟨capital, rfl⟩ := List.cons.inj skipped
    obtain ⟨relative, segment⟩ := c
    obtain ⟨p, rfl⟩ := exists_moveTo (move rfl)
    obtain ⟨_, _, next, -, arguments⟩ :=
      startsNumber_of_spellsArguments (List.cons_ne_nil _ _) arguments
    rw [← next] at arguments
    refine ⟨p, ?_, spellsArguments_of_skip (List.cons_ne_nil _ _) arguments⟩
    cases relative with
    | false => rfl
    | true => exact absurd (show 'M' = 'm' from capital) (by decide)

/-- Path data of a move and no other letter is a run of lines through the points that it spells. -/
theorem exists_lineRun_of_spells {cmds : List (Command Literal)} {cs : List Char}
    (bare : HasNoCommands cs) (h : Spells none cmds ('M' :: ' ' :: cs)) :
    ∃ (p : Point Literal) (points : List (Point Literal)) (rest : List Char),
      cmds = Svg.lineRun false p points ∧
      SpellsArguments ((Svg.coordinates (p :: points)).map .number) cs rest ∧
      Separators rest := by
  rcases h with ends | ⟨first, later⟩
  · exact absurd (ends 'M' List.mem_cons_self) (by decide)
  obtain ⟨p, rfl, arguments⟩ := exists_move_of_spellsCommand first
  obtain ⟨points, rest, rfl, spells, ends⟩ :=
    exists_lines_of_spells rfl (bare.of_suffix (suffix_of_spellsArguments arguments)) later
  refine ⟨p, points, rest, ?_, spellsArguments_append_iff.mpr ⟨_, arguments, spells⟩, ends⟩
  rw [Svg.lineRun, if_neg Bool.false_ne_true, List.append_nil]
  rfl

end LaserCut.PathData

namespace LaserCut.Svg

open Binary64 (plain)
open Outcome (mapM_eq_some_iff)
open PathData (Command HasNoCommands curves draw parse)

/-! ## Lines through the same points -/

/-- Path data that spells points after a move draws the sides between them. -/
theorem exists_points_of_curves {d : String} {cs : List (Curve Float)}
    (bare : HasNoCommands d.toList) (h : curves ("M " ++ d) = .ok cs) :
    ∃ points rest, cs = (sides false ((points.map (Point.map Binary64.ofLiteral)).map
        (Point.map plain))).map (fun s => .line s.1 s.2) ∧
      PathData.SpellsArguments ((coordinates points).map .number) d.toList rest ∧
      PathData.Separators rest := by
  obtain ⟨cmds, read, rfl⟩ := Outcome.map_eq_ok_iff.mp h
  have spells := PathData.parse_eq_ok_iff.mp read
  rw [String.toList_append] at spells
  obtain ⟨p, points, rest, rfl, spelled, ends⟩ := PathData.exists_lineRun_of_spells bare spells
  refine ⟨p :: points, rest, ?_, spelled, ends⟩
  rw [List.map_cons, ← draw_lineRun, ← map_lineRun]
  rfl

/-- A polyline and the path that begins with a move and goes on with the same text: if all fields of
the text are numbers and finite, they draw the same; if all are numbers but not all finite, the
polyline's path data cannot be read; and if one is no number, the polyline has none. -/
theorem polyline_draws_path {e : Element} {d : String} {cs : List (Curve Float)}
    (kind : shapeKind? e = some .polyline) (attr : e.attribute? "points" = some d)
    (path : curves ("M " ++ d) = .ok cs)
    (bare : ∀ c ∈ d.toList, c.isAlpha = true → c = 'e' ∨ c = 'E') (drawn : cs ≠ []) :
    ((∀ field ∈ pointFields d, IsFiniteField field) →
      ∃ data, shapeData? e = some data ∧ curves data = .ok cs) ∧
    ((∀ field ∈ pointFields d, ∃ l, Literal.ofChars? field = some l) →
      (∃ field ∈ pointFields d, ¬ IsFiniteField field) →
      ∃ data command offset, shapeData? e = some data ∧
        curves data = (.error (.expectedNumber command offset) : Except _ (List (Curve Float)))) ∧
    ((∃ field ∈ pointFields d, Literal.ofChars? field = none) → shapeData? e = none) := by
  obtain ⟨points, rest, rfl, spelled, ends⟩ := exists_points_of_curves bare path
  have two : 2 ≤ points.length := by
    match points, drawn with
    | [], drawn => exact absurd rfl drawn
    | [_], drawn => exact absurd rfl drawn
    | _ :: _ :: _, _ => exact Nat.le_add_left 2 _
  have kind : shapeKind? e = some (polyKind false) := kind
  have outline (listed : ListsPoints d points) :
      shape? e = polyOutline? (points.map (Point.map Binary64.ofLiteral)) false :=
    (shape?_of_hasVertices (.poly kind attr listed two)).1
  have two : 2 ≤ (points.map (Point.map Binary64.ofLiteral)).length := by
    rwa [List.length_map]
  refine ⟨fun finite => ?_, fun numbers infinite => ?_, fun missing => ?_⟩
  · have listed : ListsPoints d points := PathData.forall₂_fields spelled ends fun field mem =>
      (finite field mem).imp fun _ => And.left
    exact curves_lineRun (outline listed) two (listed.forall_isFinite_iff.mpr finite)
  · have listed : ListsPoints d points := PathData.forall₂_fields spelled ends numbers
    obtain ⟨p, rest, same, run⟩ := exists_lineRun two false
    refine curves_shapeData_error ((outline listed).trans run) fun finite => ?_
    rw [allFinite_lineRun, ← same, listed.forall_isFinite_iff] at finite
    obtain ⟨field, mem, infinite⟩ := infinite
    exact infinite (finite field mem)
  · exact shapeData?_eq_none_of_field kind attr missing

theorem exists_curves_of_length {d : String} {n : Nat}
    (h : (curves d).toOption.map (fun cs : List (Curve Float) => cs.length) = some (n + 1)) :
    ∃ cs : List (Curve Float), curves d = .ok cs ∧ cs ≠ [] := by
  obtain ⟨cs, read, length⟩ := Option.map_eq_some_iff.mp h
  exact ⟨cs, Outcome.toOption_eq_some_iff.mp read, List.ne_nil_of_length_eq_add_one length⟩

/-- A polyline of the given points. -/
def polyline (points : String) : Element := ⟨"polyline", none, [⟨none, "points", points⟩], []⟩

/-- Digits may be left out on one side of a point, and exponents may be given. -/
theorem polyline_draws_path_exponent :
    ∃ (data : String) (cs : List (Curve Float)), curves "M 0,0 1e1 -.5" = .ok cs ∧
      shapeData? (polyline "0,0 1e1 -.5") = some data ∧ curves data = .ok cs := by
  obtain ⟨cs, read, ne⟩ := exists_curves_of_length (d := "M 0,0 1e1 -.5") (n := 0)
    (by decide +kernel)
  have listed : ListsPoints "0,0 1e1 -.5"
      [⟨.decimal false 0 0, .decimal false 0 0⟩, ⟨.decimal false 1 1, .decimal true 5 (-1)⟩] :=
    mapM_eq_some_iff.mp (by decide +kernel)
  have finite : ∀ field ∈ pointFields "0,0 1e1 -.5", IsFiniteField field :=
    (forall_mem_iff_of_forall₂ listed).mp (by decide +kernel)
  obtain ⟨data, written, same⟩ := (polyline_draws_path (e := polyline "0,0 1e1 -.5") rfl rfl read
    (PathData.hasNoCommands_of_all (by decide +kernel)) ne).1 finite
  exact ⟨data, cs, read, written, same⟩

/-- Path data needs no separator in front of a sign, and a list of points does. -/
theorem not_polyline_draws_path :
    ¬ ∀ (e : Element) (d : String) (cs : List (Curve Float)), shapeKind? e = some .polyline →
      e.attribute? "points" = some d → curves ("M " ++ d) = .ok cs →
      (∀ c ∈ d.toList, c.isAlpha = true → c = 'e' ∨ c = 'E') → cs ≠ [] →
      ∃ data, shapeData? e = some data ∧ curves data = .ok cs := by
  intro claim
  have none : shapeData? (polyline "0,0 10-5") = none := by decide +kernel
  obtain ⟨cs, read, ne⟩ := exists_curves_of_length (d := "M 0,0 10-5") (n := 0)
    (by decide +kernel)
  obtain ⟨data, written, -⟩ := claim (polyline "0,0 10-5") "0,0 10-5" cs rfl rfl read
    (PathData.hasNoCommands_of_all (by decide +kernel)) ne
  exact absurd (none.symm.trans written) nofun

end LaserCut.Svg
