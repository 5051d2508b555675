import LaserCut.Proofs.Binary64.Finite
import LaserCut.Proofs.Gcode.Passes

/-!
# The numbers of a program

Whether a program has a number that no machine can read, from the points and steps it is made of.

* `HasFiniteWords`: no axis word and no feed of a line is an infinity or a missing number;
* `Instruction.numbers`: the numbers that the line of an instruction is printed from;
* `Instruction.hasFiniteWords_iff`: the words of a line are finite if and only if these numbers are;
* `areFinite_passesOf`: the numbers of the passes are finite if and only if the points of all curves
  are, and the steps down.
-/

namespace LaserCut.Gcode

/-! ## Lines -/

/-- The letters in front of coordinates and feeds. -/
def numberLetters : List Char := ['X', 'Y', 'Z', 'F']

/-- No coordinate and no feed is written as an infinity or as no number. -/
def HasFiniteWords (line : String) : Prop :=
  ∀ w ∈ lineWords line, w.letter ∈ numberLetters → w.number ∉ Decimal.specials

instance (line : String) : Decidable (HasFiniteWords line) :=
  inferInstanceAs (Decidable (∀ w ∈ _, _ → _))

def AxisWords.numbers {α : Type} (w : AxisWords α) : List α :=
  w.x.toList ++ w.y.toList ++ w.z.toList

namespace Instruction

variable {α : Type}

/-- The line is not the user's own and does not switch the tool, whose lines are the user's too. -/
def isOwn : Instruction α → Bool
  | .toolOff | .toolOn _ | .verbatim _ => false
  | _ => true

/-- The numbers that stand behind letters in the line of an instruction. -/
def numbers : Instruction α → List α
  | .rapid words => words.numbers
  | .cut feed words => feed.toList ++ words.numbers
  | _ => []

end Instruction

section Words

variable (d : Dialect)

theorem hasFiniteWords_of_lineWords {line : String} {code : Word} {words : List Word}
    (h : lineWords line = code :: words) (hc : code.letter ∉ numberLetters) :
    HasFiniteWords line ↔ ∀ w ∈ words, w.letter ∈ numberLetters → w.number ∉ Decimal.specials := by
  rw [HasFiniteWords, h, List.forall_mem_cons]
  exact and_iff_right fun mem => absurd mem hc

theorem axisWord_iff {letter : Char} (hl : letter ∈ numberLetters) (value : Option Float) :
    (∀ w ∈ d.axisWord letter value, w.letter ∈ numberLetters → w.number ∉ Decimal.specials) ↔
      ∀ x ∈ value.toList, x.isFinite = true := by
  cases value with
  | none => exact iff_of_true (List.forall_mem_nil _) (List.forall_mem_nil _)
  | some x =>
    simp only [Dialect.axisWord, Option.map_some, Option.toList_some, List.forall_mem_singleton, hl,
      forall_const, (Decimal.isPrinted_fixed d.places x).mem_specials_iff, Bool.not_eq_false]

theorem feedWord_iff (feed : Option Float) :
    (∀ w ∈ Dialect.feedWord feed, w.letter ∈ numberLetters → w.number ∉ Decimal.specials) ↔
      ∀ x ∈ feed.toList, x.isFinite = true := by
  cases feed with
  | none => exact iff_of_true (List.forall_mem_nil _) (List.forall_mem_nil _)
  | some f =>
    have letter : 'F' ∈ numberLetters := by decide
    simp only [Dialect.feedWord, Option.map_some, Option.toList_some, List.forall_mem_singleton,
      letter, forall_const, (Decimal.isPrinted_shortest f).mem_specials_iff, Bool.not_eq_false]

theorem moveWords_iff (feed : Option Float) (w : AxisWords Float) :
    (∀ v ∈ d.moveWords feed w, v.letter ∈ numberLetters → v.number ∉ Decimal.specials) ↔
      ∀ x ∈ feed.toList ++ w.numbers, x.isFinite = true := by
  simp only [Dialect.moveWords, AxisWords.numbers, List.forall_mem_append, feedWord_iff,
    axisWord_iff d (by decide : 'X' ∈ numberLetters),
    axisWord_iff d (by decide : 'Y' ∈ numberLetters),
    axisWord_iff d (by decide : 'Z' ∈ numberLetters)]

theorem Instruction.isFinite_of_numbers_eq_nil {i : Instruction Float} (h : i.numbers = []) :
    ∀ x ∈ i.numbers, x.isFinite = true := by
  rw [h]
  exact List.forall_mem_nil _

/-- The words of a line are those of its numbers, and the numbers in other lines are whole. -/
theorem Instruction.hasFiniteWords_iff {i : Instruction Float} (own : i.isOwn = true) :
    HasFiniteWords (d.line i) ↔ ∀ x ∈ i.numbers, x.isFinite = true := by
  have code : 'G' ∉ numberLetters := by decide
  cases i with
  | rapid words =>
    rw [hasFiniteWords_of_lineWords (d.lineWords_rapid words) code]
    exact moveWords_iff d none words
  | cut feed words =>
    rw [hasFiniteWords_of_lineWords (d.lineWords_cut feed words) code]
    exact moveWords_iff d feed words
  | dwell milliseconds =>
    rw [hasFiniteWords_of_lineWords (d.lineWords_dwell milliseconds) code]
    refine iff_of_true (fun w hw => ?_) (isFinite_of_numbers_eq_nil rfl)
    rw [List.mem_singleton.mp hw]
    exact fun mem => absurd mem (by decide : 'P' ∉ numberLetters)
  | unit u =>
    refine iff_of_true ?_ (isFinite_of_numbers_eq_nil rfl)
    rcases u with _ | _ <;> rw [Dialect.line] <;> decide
  | absolute | relative | setOrigin | home =>
    refine iff_of_true ?_ (isFinite_of_numbers_eq_nil rfl)
    rw [Dialect.line]
    decide
  | toolOff | toolOn | verbatim => cases own

end Words

/-! ## Lists of instructions -/

/-- All numbers of the instructions are finite. -/
def AreFinite (is : List (Instruction Float)) : Prop :=
  ∀ i ∈ is, ∀ x ∈ i.numbers, x.isFinite = true

theorem areFinite_nil : AreFinite [] := List.forall_mem_nil _

theorem areFinite_cons {i : Instruction Float} {is : List (Instruction Float)} :
    AreFinite (i :: is) ↔ (∀ x ∈ i.numbers, x.isFinite = true) ∧ AreFinite is :=
  List.forall_mem_cons

theorem areFinite_append {is js : List (Instruction Float)} :
    AreFinite (is ++ js) ↔ AreFinite is ∧ AreFinite js := List.forall_mem_append

theorem areFinite_flatten {parts : List (List (Instruction Float))} :
    AreFinite parts.flatten ↔ ∀ part ∈ parts, AreFinite part := List.forall_mem_flatten

/-- What is left out of programs has no numbers. -/
theorem areFinite_filter (d : Dialect) (is : List (Instruction Float)) :
    AreFinite (is.filter (!d.isSilent ·)) ↔ AreFinite is := by
  refine ⟨fun h i hi => ?_, fun h i hi => h i (List.mem_filter.mp hi).1⟩
  cases i with
  | rapid | cut => exact h _ (List.mem_filter.mpr ⟨hi, rfl⟩)
  | _ => exact Instruction.isFinite_of_numbers_eq_nil rfl

/-- The lines that are the program's own have finite words if the numbers of all are finite. -/
theorem hasFiniteWords_iff_areFinite (d : Dialect) (is : List (Instruction Float)) :
    (∀ i ∈ is, i.isOwn = true → HasFiniteWords (d.line i)) ↔ AreFinite is := by
  refine forall₂_congr fun i _ => ?_
  cases own : i.isOwn with
  | true => exact (imp_iff_right rfl).trans (Instruction.hasFiniteWords_iff d own)
  | false =>
    cases i with
    | toolOff | toolOn | verbatim =>
      exact iff_of_true (fun own => absurd own Bool.false_ne_true)
        (Instruction.isFinite_of_numbers_eq_nil rfl)
    | _ => cases own

/-! ## Curves -/

section Curves

theorem areFinite_travel (start : Point Float) : AreFinite (travel start) ↔ start.IsFinite := by
  simp [AreFinite, travel, Instruction.numbers, AxisWords.numbers, AxisWords.plane, Point.IsFinite]

theorem areFinite_cuts (points : List (Point Float)) :
    AreFinite (points.map cutTo) ↔ ∀ p ∈ points, p.IsFinite := by
  simp [AreFinite, cutTo, Instruction.numbers, AxisWords.numbers, AxisWords.plane, Point.IsFinite]

/-- The start of the curve is finite, and all points that it is flattened to. -/
def HasFinitePoints (tolerance : Float) (curve : Curve Float) : Prop :=
  curve.start.IsFinite ∧ ∀ p ∈ curve.flatten tolerance, p.IsFinite

theorem HasFinitePoints.finish {tolerance : Float} {curve : Curve Float}
    (h : HasFinitePoints tolerance curve) : curve.finish.IsFinite :=
  h.2 _ (List.mem_of_getLast? (curve.getLast?_flatten tolerance))

variable {tolerance : Float} (ht : tolerance.isFinite = true)

include ht

/-- The start of a curve is written unless the curve meets the one before, and then it is finite
if that one ends in a finite point. -/
theorem areFinite_approach {previous : Option (Curve Float)}
    (before : ∀ c ∈ previous, c.finish.IsFinite) (curve : Curve Float) :
    AreFinite (if meets tolerance previous curve then [] else travel curve.start) ↔
      curve.start.IsFinite := by
  split
  · rename_i meeting
    obtain ⟨c, hc, near⟩ := (Option.any_eq_true ..).mp meeting
    exact iff_of_true areFinite_nil (Point.isFinite_of_near (before c hc) ht near)
  · exact areFinite_travel curve.start

theorem areFinite_moves (curves : List (Curve Float)) : ∀ previous : Option (Curve Float),
    (∀ c ∈ previous, c.finish.IsFinite) →
      (AreFinite (moves tolerance previous curves) ↔
        ∀ c ∈ curves, HasFinitePoints tolerance c) := by
  induction curves with
  | nil => exact fun _ _ => iff_of_true areFinite_nil (List.forall_mem_nil _)
  | cons curve rest ih =>
    intro previous before
    rw [moves, areFinite_append, areFinite_append, areFinite_approach ht before, areFinite_cuts,
      List.forall_mem_cons]
    refine and_congr_right fun points => ih (some curve) fun c hc => ?_
    cases hc
    exact HasFinitePoints.finish points

end Curves

/-! ## Passes -/

/-- The head goes down between passes. -/
def Motion.Descends {α : Type} [Scalar α] (motion : Motion α) : Prop := 0 < motion.passDepth

theorem areFinite_withFeed {feed : Float} (hf : feed.isFinite = true)
    {is : List (Instruction Float)} (h : ∀ f words, .cut (some f) words ∉ is) :
    AreFinite (withFeed feed is) ↔ AreFinite is := by
  induction is with
  | nil => rfl
  | cons i is ih =>
    have rest := ih fun f words mem => h f words (List.mem_cons_of_mem _ mem)
    cases i with
    | cut f words =>
      cases f with
      | none =>
        rw [withFeed, areFinite_cons, areFinite_cons]
        refine and_congr_left fun _ => ?_
        show (∀ x ∈ feed :: words.numbers, x.isFinite = true) ↔ _
        rw [List.forall_mem_cons]
        exact and_iff_right hf
      | some f => exact absurd List.mem_cons_self (h f words)
    | _ =>
      rw [withFeed, areFinite_cons, areFinite_cons, rest]
      exact nofun

section Passes

variable {motion : Motion Float}

theorem areFinite_descent (step : Float) :
    AreFinite (descent motion step) ↔ (motion.Descends → step.isFinite = true) := by
  rw [descent, areFinite_cons, Motion.Descends]
  refine (and_iff_right (Instruction.isFinite_of_numbers_eq_nil rfl)).trans ?_
  split
  · rename_i descends
    have numbers : AreFinite [.relative, .cut none (.height (-step)), .absolute] ↔
        (-step).isFinite = true := by
      simp [AreFinite, Instruction.numbers, AxisWords.numbers, AxisWords.height]
    rw [numbers, Binary64.isFinite_neg]
    exact (imp_iff_right descends).symm
  · rename_i level
    exact iff_of_true areFinite_nil fun descends => absurd descends level

theorem areFinite_bodyOf (hf : motion.cuttingSpeed.isFinite = true)
    (ht : motion.tolerance.isFinite = true) (curves : List (Curve Float)) :
    AreFinite (bodyOf motion curves) ↔ ∀ c ∈ curves, HasFinitePoints motion.tolerance c := by
  rw [bodyOf, areFinite_withFeed hf, areFinite_moves ht curves none nofun]
  intro f words mem
  rcases mem_moves mem with ⟨start, mem⟩ | ⟨p, same⟩
  · rcases mem_travel mem with same | same | same <;> cases same
  · cases same

/-- The numbers of the passes: the points of the curves, again and again, and the steps down. -/
theorem areFinite_passesOf (hf : motion.cuttingSpeed.isFinite = true)
    (ht : motion.tolerance.isFinite = true) (curves : List (Curve Float)) (count : Nat) :
    AreFinite (passesOf motion curves count).flatten ↔
      (∀ c ∈ curves, HasFinitePoints motion.tolerance c) ∧
        (curves ≠ [] → motion.Descends →
          ∀ step ∈ passSteps motion count, step.isFinite = true) := by
  cases curves with
  | nil =>
    rw [flatten_passesOf_nil]
    exact iff_of_true areFinite_nil ⟨List.forall_mem_nil _, fun none => absurd rfl none⟩
  | cons curve rest =>
    have body := areFinite_bodyOf hf ht (curve :: rest)
    rw [areFinite_flatten, passesOf, List.isEmpty_cons, if_neg Bool.false_ne_true,
      List.forall_mem_cons, body, List.forall_mem_map]
    refine and_congr_right fun points => ?_
    simp only [areFinite_append, areFinite_descent, body, and_iff_left points]
    exact ⟨fun h _ descends step mem => h step mem descends,
      fun h step mem descends => h (List.cons_ne_nil _ _) descends step mem⟩

end Passes

end LaserCut.Gcode
