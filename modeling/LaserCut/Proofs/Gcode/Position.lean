import Mathlib.Algebra.Group.Basic
import Mathlib.Data.Rat.Defs
import LaserCut.Proofs.Gcode.Feed

/-!
# The position that is known

A controller knows a position once a move has fixed it, and keeps the words of moves for it as they
are. A machine may count the same words from elsewhere, or have gone home.

* `Instruction.effect`: what an instruction makes a machine do that takes each word for the number
  it was printed from, in agreement with its line (`Instruction.execution_eq_effect`);
* `Machine.basisAfter`: what the last word of an axis is counted from;
* `Machine.tracks_run`: the head is where the controller knows it to be, counted from there;
* `Machine.spot_run`: where the two agree.
-/

namespace LaserCut.Gcode

variable {α ν : Type}

/-! ## Words as numbers -/

def AxisWords.map (f : α → ν) (w : AxisWords α) : AxisWords ν := ⟨w.x.map f, w.y.map f, w.z.map f⟩

/-- What an instruction makes a machine do that reads every word as the number it was printed
from. -/
def Instruction.effect [Scalar α] (read : α → ν) : Instruction α → Action ν
  | .rapid words => .move true none (words.map read)
  | .cut feed words => .move false (feed.map read) (words.map read)
  | .toolOff => .laser false
  | .toolOn _ => .laser true
  | .absolute => .distances false
  | .relative => .distances true
  | .setOrigin => .declare ⟨some (read 0), some (read 0), some (read 0)⟩
  | .home => .home
  | .dwell _ | .unit _ | .verbatim _ => .other

/-- Lines have these effects as far as the texts of numbers are read as these numbers. -/
theorem Instruction.execution_eq_effect {d : Dialect} {value : String → ν} {read : Float → ν}
    (words : ∀ v, value (Decimal.fixed d.places v) = read v)
    (feeds : ∀ v, value (Decimal.shortest v) = read v) (zero : value "0" = read 0)
    {i : Instruction Float} (own : i.isVerbatim = false) :
    i.execution d value = i.effect read := by
  have axes (w : AxisWords Float) : d.read value w = w.map read := by
    rw [Dialect.read, AxisWords.map, funext words]
  cases i with
  | rapid w =>
    rw [execution_of_isMotion d value rfl]
    exact congrArg (Action.move true none) (axes w)
  | cut feed w =>
    rw [execution_of_isMotion d value rfl, action, axes, funext feeds]
    rfl
  | setOrigin =>
    show Action.ofWords value (lineWords (d.line .setOrigin)) = _
    rw [d.lineWords_setOrigin]
    exact congrArg (fun v => Action.declare ⟨some v, some v, some v⟩) zero
  | dwell milliseconds =>
    show Action.ofWords value (lineWords (d.line (.dwell milliseconds))) = _
    rw [d.lineWords_dwell]
    rfl
  | unit u =>
    show Action.ofWords value (lineWords (d.line (.unit u))) = _
    rw [d.lineWords_unit]
    cases u <;> rfl
  | home =>
    show Action.ofWords value (lineWords (d.line .home)) = _
    rw [d.lineWords_home]
    rfl
  | absolute | relative | toolOff | toolOn => exact execution_of_isMotion d value rfl
  | verbatim => cases own

/-! ## Axes -/

/-- An axis of the plane. -/
inductive Axis
  | x
  | y
deriving DecidableEq, Repr

namespace Axis

def word : Axis → AxisWords ν → Option ν
  | x, words => words.x
  | y, words => words.y

def coordinate : Axis → Point α → α
  | x, p => p.x
  | y, p => p.y

theorem word_map (axis : Axis) (f : α → ν) (words : AxisWords α) :
    axis.word (words.map f) = (axis.word words).map f := by
  cases axis <;> rfl

/-- A coordinate that is known after a move is that of its word or, without one, as before. -/
theorem coordinate_of_moved (axis : Axis) {position : Option (Point α)} {words : AxisWords α}
    {p : Point α} (h : Controller.moved position words = some p) :
    axis.word words = some (axis.coordinate p) ∨
      (axis.word words = none ∧
        ∃ q, position = some q ∧ axis.coordinate p = axis.coordinate q) := by
  rcases words with ⟨_ | wx, _ | wy, wz⟩ <;> rcases position with _ | q <;> cases h <;> cases axis
  all_goals first
    | exact .inl rfl
    | exact .inr ⟨rfl, _, rfl, rfl⟩

end Axis

namespace Machine

/-! ## What words are counted from -/

theorem word_place_move [Add ν] (axis : Axis) (m : Machine ν) (rapid : Bool) (feed : Option ν)
    (words : AxisWords ν) :
    axis.word (m.perform (.move rapid feed words)).place =
      advance m.relative (axis.word m.place) (axis.word words) := by
  cases axis <;> rfl

section Basis

variable [Add ν] [Zero ν]

/-- What the coordinate of an axis is counted from after an action: declared coordinates and words
of absolute moves from zero, words of relative moves from the place before. -/
def basis (axis : Axis) (m : Machine ν) (before : Option ν) : Action ν → Option ν
  | .move _ _ words =>
    match axis.word words with
    | none => before
    | some _ => if m.relative then axis.word m.place else some 0
  | .declare words =>
    match axis.word words with
    | none => before
    | some _ => some 0
  | .home => none
  | _ => before

def basisAfter (axis : Axis) (m : Machine ν) (before : Option ν) : List (Action ν) → Option ν
  | [] => before
  | a :: actions => (m.perform a).basisAfter axis (m.basis axis before a) actions

theorem basisAfter_append (axis : Axis) (m : Machine ν) (before : Option ν)
    (as bs : List (Action ν)) :
    m.basisAfter axis before (as ++ bs) =
      (m.run as).basisAfter axis (m.basisAfter axis before as) bs := by
  induction as generalizing m before with
  | nil => rfl
  | cons a as ih => exact ih (m.perform a) _

end Basis

/-! ## Actions that stray -/

/-- The action counts coordinates of the plane from elsewhere, or makes them unknown. -/
def Strays (m : Machine ν) : Action ν → Prop
  | .move _ _ words => m.relative = true ∧ (words.x.isSome = true ∨ words.y.isSome = true)
  | .home => True
  | _ => False

theorem not_strays_move {m : Machine ν} {rapid : Bool} {feed : Option ν} {words : AxisWords ν}
    (h : ¬ m.Strays (.move rapid feed words)) (axis : Axis) (hw : (axis.word words).isSome = true) :
    m.relative = false := by
  rw [← Bool.not_eq_true]
  intro relative
  cases axis with
  | x => exact h ⟨relative, .inl hw⟩
  | y => exact h ⟨relative, .inr hw⟩

/-! ## What the controller knows -/

section Tracks

variable [AddGroup ν] {read : α → ν} {axis : Axis} {m : Machine ν} {before : Option ν}

/-- The head is where the position says, counted from a basis; without a basis the place is
unknown. -/
def Tracks (read : α → ν) (axis : Axis) (m : Machine ν) (basis : Option ν)
    (position : Option (Point α)) : Prop :=
  ∀ p ∈ position, axis.word m.place = basis.map (· + read (axis.coordinate p))

theorem tracks_move {position : Option (Point α)} (h : Tracks read axis m before position)
    (rapid : Bool) (feed : Option ν) (words : AxisWords α) :
    Tracks read axis (m.perform (.move rapid feed (words.map read)))
      (m.basis axis before (.move rapid feed (words.map read)))
      (Controller.moved position words) := by
  intro p hp
  rw [word_place_move, basis, Axis.word_map]
  rcases axis.coordinate_of_moved hp with word | ⟨word, q, known, same⟩
  · rw [word]
    show (if m.relative then _ else _) = Option.map _ (if m.relative then _ else _)
    split
    · rfl
    · exact congrArg some (zero_add _).symm
  · rw [word, same]
    exact h q known

/-- As long as no action strays, a position that is known is counted from zero. -/
theorem basis_move {position : Option (Point α)}
    (h : position.isSome = true → before = some 0) {rapid : Bool} {feed : Option ν}
    {words : AxisWords α} (stays : ¬ m.Strays (.move rapid feed (words.map read)))
    (known : (Controller.moved position words).isSome = true) :
    m.basis axis before (.move rapid feed (words.map read)) = some 0 := by
  obtain ⟨p, hp⟩ := Option.isSome_iff_exists.mp known
  have word := axis.word_map read words
  rw [basis]
  rcases axis.coordinate_of_moved hp with given | ⟨given, q, rfl, -⟩
  · rw [given] at word
    have absolute := not_strays_move stays axis (by rw [word]; rfl)
    rw [word, absolute]
    rfl
  · rw [word, given]
    exact h rfl

variable [Scalar α] {c : Controller α}

/-- One request keeps what the controller knows in step with the machine. -/
theorem tracks_handle (h : Tracks read axis m before c.position) (r : Request α) :
    Tracks read axis (m.run ((issued (c.handle r).1).map (·.effect read)))
      (m.basisAfter axis before ((issued (c.handle r).1).map (·.effect read)))
      (c.handle r).2.position := by
  cases r with
  | move words =>
    rw [Controller.handle, Controller.move]
    repeat' split
    · exact h
    · exact h
    · exact tracks_move h true none words
    · exact tracks_move h false none words
    · exact tracks_move h false _ words
  | toolOn power =>
    rw [Controller.handle]
    split <;> exact h
  | setOrigin =>
    intro p hp
    cases hp
    cases axis <;> exact congrArg some (zero_add _).symm
  | home =>
    intro p _
    cases axis <;> rfl
  | _ => exact h

/-- After a session the head is where the controller knows it to be, counted from what the last word
of each axis was counted from. -/
theorem tracks_run (h : Tracks read axis m before c.position) (rs : List (Request α)) :
    Tracks read axis (m.run ((c.emitted rs).map (·.effect read)))
      (m.basisAfter axis before ((c.emitted rs).map (·.effect read))) (c.afterAll rs).position := by
  induction rs generalizing m before c with
  | nil => exact h
  | cons r rs ih =>
    rw [Controller.emitted_cons, List.map_append, run_append, basisAfter_append]
    exact ih (tracks_handle h r)

theorem basis_handle (h : c.position.isSome = true → before = some 0) (r : Request α)
    (stays : ∀ step ∈ m.steps ((issued (c.handle r).1).map (·.effect read)),
      ¬ step.1.Strays step.2)
    (known : (c.handle r).2.position.isSome = true) :
    m.basisAfter axis before ((issued (c.handle r).1).map (·.effect read)) = some 0 := by
  cases r with
  | move words =>
    revert stays known
    rw [Controller.handle, Controller.move]
    repeat' split
    · exact fun _ => h
    · exact fun _ => h
    · exact fun stays => basis_move h (stays _ List.mem_cons_self)
    · exact fun stays => basis_move h (stays _ List.mem_cons_self)
    · exact fun stays => basis_move h (stays _ List.mem_cons_self)
  | toolOn power =>
    revert known
    rw [Controller.handle]
    split <;> exact h
  | setOrigin => cases axis <;> rfl
  | home => exact absurd trivial (stays _ List.mem_cons_self)
  | _ => exact h known

theorem basis_run (rs : List (Request α)) :
    ∀ {m : Machine ν} {before : Option ν} {c : Controller α},
    (c.position.isSome = true → before = some 0) →
    (∀ step ∈ m.steps ((c.emitted rs).map (·.effect read)), ¬ step.1.Strays step.2) →
    (c.afterAll rs).position.isSome = true →
    m.basisAfter axis before ((c.emitted rs).map (·.effect read)) = some 0 := by
  induction rs with
  | nil => exact fun h _ known => h known
  | cons r rs ih =>
    intro m before c h stays known
    rw [Controller.emitted_cons, List.map_append, steps_append, List.forall_mem_append] at stays
    rw [Controller.emitted_cons, List.map_append, basisAfter_append]
    exact ih (basis_handle h r stays.1) stays.2 known

end Tracks

/-! ## Where the head is -/

section Spot

variable [Scalar α] [AddGroup ν]

theorem map_add_eq_some_iff {basis : Option ν} {t : ν} :
    basis.map (· + t) = some t ↔ basis = some 0 := by
  rw [Option.map_eq_some_iff]
  constructor
  · rintro ⟨b, rfl, sum⟩
    rw [add_eq_right.mp sum]
  · rintro rfl
    exact ⟨0, rfl, zero_add t⟩

/-- Where the head is when a fresh controller knows a position after a session, on a machine that
reads every word as the number it was printed from. Both coordinates are counted from what the last
word of their axis was counted from, so the head is at the position known if and only if that is
zero for both. It is, if no relative move in the plane and no homing was asked for. -/
theorem spot_run (read : α → ν) (m : Machine ν) (rs : List (Request α)) {p : Point α}
    (h : (Controller.initial.afterAll rs).position = some p) :
    let actions := (Controller.initial.emitted rs).map (·.effect read)
    (m.run actions).spot = ((m.basisAfter .x none actions).map (· + read p.x),
        (m.basisAfter .y none actions).map (· + read p.y)) ∧
      ((m.run actions).spot = (some (read p.x), some (read p.y)) ↔
        m.basisAfter .x none actions = some 0 ∧ m.basisAfter .y none actions = some 0) ∧
      ((∀ step ∈ m.steps actions, ¬ step.1.Strays step.2) →
        (m.run actions).spot = (some (read p.x), some (read p.y))) := by
  intro actions
  have tracks (axis : Axis) : axis.word (m.run actions).place =
      (m.basisAfter axis none actions).map (· + read (axis.coordinate p)) :=
    tracks_run (c := Controller.initial) (fun q hq => by cases hq) rs p h
  have spot : (m.run actions).spot = ((m.basisAfter .x none actions).map (· + read p.x),
      (m.basisAfter .y none actions).map (· + read p.y)) := Prod.ext (tracks .x) (tracks .y)
  have agrees : (m.run actions).spot = (some (read p.x), some (read p.y)) ↔
      m.basisAfter .x none actions = some 0 ∧ m.basisAfter .y none actions = some 0 := by
    rw [spot, Prod.mk.injEq, map_add_eq_some_iff, map_add_eq_some_iff]
  refine ⟨spot, agrees, fun stays => agrees.mpr ⟨?_, ?_⟩⟩
  · exact basis_run rs (fun known => by cases known) stays (by rw [h]; rfl)
  · exact basis_run rs (fun known => by cases known) stays (by rw [h]; rfl)

end Spot

/-- The number that a binary64 number is, if it is finite. -/
def exactly (x : Float) : ℚ :=
  match Decimal.parts x with
  | .finite negative mantissa exponent =>
    let (num, den) := Decimal.fraction mantissa exponent
    mkRat (if negative then -num else num) den
  | .infinite _ | .nan => 0

/-- A machine that has just been switched on. -/
def fresh : Machine ℚ := ⟨false, false, none, ⟨none, none, none⟩⟩

/-- Homing and a relative move, and absolute words for both axes after them. -/
def homeFirst : List (Request Float) :=
  [.travelAt 10, .move (.plane 1 2), .home, .relative, .move (.plane 3 3), .absolute,
    .move (.plane 4 5), .move ⟨some 6, none, some (-1)⟩]

theorem spot_run_home_first :
    (Controller.initial.afterAll homeFirst).position = some ⟨6, 5⟩ ∧
      (fresh.run ((Controller.initial.emitted homeFirst).map (·.effect exactly))).spot =
        (some 6, some 5) := by
  have known : (Controller.initial.afterAll homeFirst).position = some ⟨6, 5⟩ := by decide +kernel
  obtain ⟨-, agrees, -⟩ := spot_run exactly fresh homeFirst known
  refine ⟨known, (agrees.mpr ?_).trans ?_⟩ <;> decide +kernel

/-- After a relative move the position that is known is the distance of that move. -/
theorem not_spot_run :
    ¬ ∀ (rs : List (Request Float)) (p : Point Float),
      (Controller.initial.afterAll rs).position = some p →
        (fresh.run ((Controller.initial.emitted rs).map (·.effect exactly))).spot =
          (some (exactly p.x), some (exactly p.y)) := by
  intro claim
  have there := claim [.travelAt 10, .move (.plane 4 5), .relative, .move (.plane 1 1)] ⟨1, 1⟩
    (by decide +kernel)
  revert there
  decide +kernel

end Machine

end LaserCut.Gcode
