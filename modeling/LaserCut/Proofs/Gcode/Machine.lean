import LaserCut.Proofs.Gcode.Line

/-!
# A machine that obeys a program

What the lines of a program do to a machine that keeps its settings from line to line: whether the
laser is on, whether moves are relative, and the feed. How the machine turns the texts of numbers
into values is left open.

* `Action.ofLine`: what a line does; two lines given beforehand switch the laser;
* `Machine.perform`, `Machine.run`: the machine after an action, and after many;
* `Machine.Safe`: no move of a run burns where it should not, and every cut is made at a given feed;
* `Machine.polylines`: what a run burns.
-/

namespace LaserCut.Gcode

/-- What a line does. -/
inductive Action (ν : Type)
  | laser (on : Bool)
  | distances (relative : Bool)
  /-- A move, rapid or at the feed; a feed given with it stays in effect. -/
  | move (rapid : Bool) (feed : Option ν) (words : AxisWords ν)
  /-- The place reached gets new coordinates. -/
  | declare (words : AxisWords ν)
  | home
  | other
deriving DecidableEq, Repr

/-- The codes of moves and of the two kinds of distances. -/
def motionCodes : List Word := [⟨'G', "0"⟩, ⟨'G', "1"⟩, ⟨'G', "90"⟩, ⟨'G', "91"⟩]

/-- Two lines that switch the laser and say nothing else to the machine. -/
structure ToolCommands.Proper (tool : ToolCommands) : Prop where
  off_ne_empty : tool.off ≠ ""
  on_ne_empty : tool.on ≠ ""
  on_ne_off : tool.on ≠ tool.off
  off_code : ∀ code ∈ (lineWords tool.off).head?, code ∉ motionCodes
  on_code : ∀ code ∈ (lineWords tool.on).head?, code ∉ motionCodes

namespace Action

variable {ν : Type} (value : String → ν)

def axes (words : List Word) : AxisWords ν :=
  ⟨(number? 'X' words).map value, (number? 'Y' words).map value, (number? 'Z' words).map value⟩

/-- What words do; the first decides. -/
def ofWords : List Word → Action ν
  | [] => .other
  | code :: words =>
    if code = ⟨'G', "0"⟩ then .move true ((number? 'F' words).map value) (axes value words)
    else if code = ⟨'G', "1"⟩ then .move false ((number? 'F' words).map value) (axes value words)
    else if code = ⟨'G', "90"⟩ then .distances false
    else if code = ⟨'G', "91"⟩ then .distances true
    else if code = ⟨'G', "92"⟩ then .declare (axes value words)
    else if code = ⟨'G', "28"⟩ then .home
    else .other

/-- What a line does on a machine whose laser is switched by the given lines. -/
def ofLine (tool : ToolCommands) (line : String) : Action ν :=
  if line = tool.off then .laser false
  else if line = tool.on then .laser true
  else ofWords value (lineWords line)

end Action

/-- A machine between two lines. -/
structure Machine (ν : Type) where
  laser : Bool
  relative : Bool
  feed : Option ν
  /-- The coordinates of the head, as far as they are known. -/
  place : AxisWords ν
deriving DecidableEq, Repr

namespace Machine

variable {ν : Type}

/-- An action does no harm: rapid moves and moves of the height are made with the laser off, the
latter by a relative distance; all other moves are absolute, and those that are not rapid are made
with the laser on and at the given feed. -/
def Permits (feed : ν) (m : Machine ν) : Action ν → Prop
  | .move rapid f words =>
    (rapid → m.laser = false) ∧
    (words.z.isSome → m.laser = false ∧ m.relative = true) ∧
    (words.x.isSome ∨ words.y.isSome →
      m.relative = false ∧ (!rapid → m.laser = true ∧ f.or m.feed = some feed))
  | _ => True

section Permits

variable {feed : ν} {f x y z : Option ν} {m : Machine ν}

theorem permits_rapid (laser : m.laser = false) (relative : m.relative = false) :
    m.Permits feed (.move true f ⟨x, y, none⟩) :=
  ⟨fun _ => laser, fun h => absurd h Bool.false_ne_true,
    fun _ => ⟨relative, fun h => absurd h Bool.false_ne_true⟩⟩

theorem permits_cut (laser : m.laser = true) (relative : m.relative = false)
    (hf : f.or m.feed = some feed) : m.Permits feed (.move false f ⟨x, y, none⟩) :=
  ⟨fun h => absurd h Bool.false_ne_true, fun h => absurd h Bool.false_ne_true,
    fun _ => ⟨relative, fun _ => ⟨laser, hf⟩⟩⟩

theorem permits_height (laser : m.laser = false) (relative : m.relative = true) :
    m.Permits feed (.move false f ⟨none, none, z⟩) :=
  ⟨fun _ => laser, fun _ => ⟨laser, relative⟩,
    fun h => absurd (h.elim id id) Bool.false_ne_true⟩

end Permits

variable [Add ν]

/-- A coordinate after a move that has a word for it or not. -/
def advance (relative : Bool) (before word : Option ν) : Option ν :=
  match word with
  | none => before
  | some v => if relative then before.map (· + v) else some v

/-- The machine after an action. -/
def perform (m : Machine ν) : Action ν → Machine ν
  | .laser on => { m with laser := on }
  | .distances relative => { m with relative }
  | .move _ feed words =>
    { m with
      feed := feed.or m.feed
      place := ⟨advance m.relative m.place.x words.x, advance m.relative m.place.y words.y,
        advance m.relative m.place.z words.z⟩ }
  | .declare words =>
    { m with place := ⟨words.x.or m.place.x, words.y.or m.place.y, words.z.or m.place.z⟩ }
  | .home => { m with place := ⟨none, none, none⟩ }
  | .other => m

/-- The machine after a run of actions. -/
def run (m : Machine ν) (actions : List (Action ν)) : Machine ν := actions.foldl perform m

/-- The actions of a run, each with the machine before it. -/
def steps (m : Machine ν) : List (Action ν) → List (Machine ν × Action ν)
  | [] => []
  | a :: actions => (m, a) :: (m.perform a).steps actions

/-- Every action of a run does no harm. -/
def Safe (feed : ν) (m : Machine ν) (actions : List (Action ν)) : Prop :=
  ∀ step ∈ m.steps actions, step.1.Permits feed step.2

/-- The place of the head in the plane. -/
def spot (m : Machine ν) : Option ν × Option ν := (m.place.x, m.place.y)

/-- A line through the spots visited with the laser on, if there are two of them. -/
def polyline (spots : List (Option ν × Option ν)) : List (List (Option ν × Option ν)) :=
  if 2 ≤ spots.length then [spots] else []

/-- The spots that an action adds to a line: where the laser goes on, and where a move with the
laser on ends. -/
def visited (m : Machine ν) : Action ν → List (Option ν × Option ν)
  | .laser true => if m.laser then [] else [m.spot]
  | .move rapid feed words => if m.laser then [(m.perform (.move rapid feed words)).spot] else []
  | _ => []

/-- What a run burns, after the spots visited since the laser went on. -/
def polylinesFrom (m : Machine ν) (spots : List (Option ν × Option ν)) :
    List (Action ν) → List (List (Option ν × Option ν))
  | [] => polyline spots
  | a :: actions =>
    if (m.perform a).laser then (m.perform a).polylinesFrom (spots ++ m.visited a) actions
    else polyline spots ++ (m.perform a).polylinesFrom [] actions

/-- The lines through the spots that the head visits in a run while the laser is on. -/
def polylines (m : Machine ν) (actions : List (Action ν)) : List (List (Option ν × Option ν)) :=
  m.polylinesFrom (if m.laser then [m.spot] else []) actions

/-! ## Runs in two parts -/

theorem run_append (m : Machine ν) (as bs : List (Action ν)) :
    m.run (as ++ bs) = (m.run as).run bs := List.foldl_append

theorem steps_append (m : Machine ν) (as bs : List (Action ν)) :
    m.steps (as ++ bs) = m.steps as ++ (m.run as).steps bs := by
  induction as generalizing m with
  | nil => rfl
  | cons a as ih => exact congrArg _ (ih (m.perform a))

theorem safe_append {feed : ν} {m : Machine ν} {as bs : List (Action ν)} :
    m.Safe feed (as ++ bs) ↔ m.Safe feed as ∧ (m.run as).Safe feed bs := by
  rw [Safe, steps_append, List.forall_mem_append]
  rfl

theorem safe_nil {feed : ν} {m : Machine ν} : m.Safe feed [] :=
  fun _ h => absurd h List.not_mem_nil

theorem safe_cons {feed : ν} {m : Machine ν} {a : Action ν} {actions : List (Action ν)} :
    m.Safe feed (a :: actions) ↔ m.Permits feed a ∧ (m.perform a).Safe feed actions := by
  rw [Safe, steps, List.forall_mem_cons]
  rfl

/-! ## Lines do not depend on the height -/

/-- The machines differ at most in the feed and the height. -/
structure SamePlane (m n : Machine ν) : Prop where
  laser : m.laser = n.laser
  relative : m.relative = n.relative
  spot : m.spot = n.spot

variable {m n : Machine ν}

theorem SamePlane.perform (h : m.SamePlane n) (a : Action ν) :
    (m.perform a).SamePlane (n.perform a) := by
  obtain ⟨laser, relative, spot⟩ := h
  obtain ⟨hx, hy⟩ := Prod.mk.inj spot
  cases a with
  | laser on => exact ⟨rfl, relative, spot⟩
  | distances relative => exact ⟨laser, rfl, spot⟩
  | move rapid feed words =>
    refine ⟨laser, relative, ?_⟩
    simp only [Machine.spot, Machine.perform, relative, hx, hy]
  | declare words =>
    refine ⟨laser, relative, ?_⟩
    simp only [Machine.spot, Machine.perform, hx, hy]
  | home => exact ⟨laser, relative, rfl⟩
  | other => exact ⟨laser, relative, spot⟩

theorem SamePlane.visited (h : m.SamePlane n) (a : Action ν) : m.visited a = n.visited a := by
  have after := (h.perform a).spot
  cases a with
  | laser on => rcases on with _ | _ <;> simp only [Machine.visited, h.laser, h.spot]
  | move rapid feed words => simp only [Machine.visited, h.laser, after]
  | _ => rfl

theorem SamePlane.polylinesFrom (h : m.SamePlane n) (spots : List (Option ν × Option ν))
    (actions : List (Action ν)) :
    m.polylinesFrom spots actions = n.polylinesFrom spots actions := by
  induction actions generalizing m n spots with
  | nil => rfl
  | cons a actions ih =>
    simp only [Machine.polylinesFrom, (h.perform a).laser, h.visited a, ih (h.perform a)]

theorem SamePlane.polylines (h : m.SamePlane n) (actions : List (Action ν)) :
    m.polylines actions = n.polylines actions := by
  rw [Machine.polylines, Machine.polylines, h.laser, h.spot, h.polylinesFrom]

/-- Switching the laser off ends a line. -/
theorem polylines_laser_off (actions : List (Action ν)) :
    m.polylines (.laser false :: actions) = (m.perform (.laser false)).polylines actions := by
  rcases m with ⟨_ | _, relative, feed, place⟩ <;> rfl

/-- Nothing is burnt while the laser stays off. -/
theorem polylines_cons (h : m.laser = false) {a : Action ν} (ha : (m.perform a).laser = false)
    (actions : List (Action ν)) :
    m.polylines (a :: actions) = (m.perform a).polylines actions := by
  simp only [polylines, polylinesFrom, h, ha]
  rfl

/-- A run that first takes the head somewhere with the laser off burns the same lines wherever it
comes from. -/
theorem polylines_travel (hm : m.relative = false) (hn : n.relative = false) (x y : ν)
    (actions : List (Action ν)) :
    m.polylines (.laser false :: .move true none ⟨some x, some y, none⟩ :: actions) =
      n.polylines (.laser false :: .move true none ⟨some x, some y, none⟩ :: actions) := by
  have same :
      ((m.perform (.laser false)).perform (.move true none ⟨some x, some y, none⟩)).SamePlane
        ((n.perform (.laser false)).perform (.move true none ⟨some x, some y, none⟩)) := by
    refine ⟨rfl, hm.trans hn.symm, ?_⟩
    simp only [spot, perform, advance, hm, hn]
    rfl
  rw [polylines_laser_off, polylines_laser_off, polylines_cons rfl rfl, polylines_cons rfl rfl,
    same.polylines]

example :
    (⟨true, false, none, ⟨some 5, some 5, none⟩⟩ : Machine Nat).polylines
        (["off", "G0 X1 Y22;", "on", "G1 F9 X333 Y1;", "G1 X1 Y1;", "off", "G1 Z1;"].map
          (.ofLine String.length ⟨"off", "on"⟩)) =
      [[(some 1, some 2), (some 3, some 1), (some 1, some 1)]] := by decide

end Machine
end LaserCut.Gcode
