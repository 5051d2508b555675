import LaserCut.Proofs.Binary64.Finite
import LaserCut.Proofs.Gcode.Reading
import LaserCut.Proofs.Gcode.Session
import LaserCut.Settings.Basic

/-!
# The feed in effect

A machine keeps the feed that it read last, and a controller leaves out a feed that is still in
effect. Both agree in every session, whatever was asked for in between.

* `Instruction.execution`: what a machine does with the line of an instruction;
* `Machine.feed_run`: after a run the feed in effect is the one written last;
* `Controller.hasFeed_eq`: which feed is left out;
* `Machine.followsFeed`: at every point of a session each cut is made at the cutting speed asked for
  last.
-/

namespace LaserCut.Gcode

variable {ν : Type}

/-! ## Lines of a session -/

/-- What a machine does with the line of an instruction. The lines of the tool are the user's: they
switch the laser, whatever their texts are. All others are read word by word. -/
def Instruction.execution (d : Dialect) (value : String → ν) : Instruction Float → Action ν
  | .toolOff => .laser false
  | .toolOn _ => .laser true
  | i => .ofWords value (lineWords (d.line i))

/-- The instruction is a line of the user's own. -/
def Instruction.isVerbatim {α : Type} : Instruction α → Bool
  | .verbatim _ => true
  | _ => false

theorem mem_issued {α : Type} {outcome : Except (MotionError α) (Option (Instruction α))}
    {i : Instruction α} : i ∈ issued outcome ↔ outcome = .ok (some i) := by
  rcases outcome with e | _ | j
  · exact iff_of_false List.not_mem_nil (fun same => by cases same)
  · exact iff_of_false List.not_mem_nil (fun same => by cases same)
  · rw [issued, Option.toList_some, List.mem_singleton, eq_comm, Except.ok.injEq,
      Option.some.injEq]

namespace Instruction

variable (d : Dialect) (value : String → ν) {i : Instruction Float}

theorem execution_of_isMotion (h : i.isMotion = true) :
    i.execution d value = i.action d value := by
  cases i with
  | rapid words => exact Action.ofWords_rapid words
  | cut feed words => exact Action.ofWords_cut feed words
  | absolute =>
    show Action.ofWords value (lineWords (d.line .absolute)) = _
    rw [d.lineWords_absolute]
    rfl
  | relative =>
    show Action.ofWords value (lineWords (d.line .relative)) = _
    rw [d.lineWords_relative]
    rfl
  | toolOff | toolOn => rfl
  | _ => cases h

/-- What is no motion touches the coordinates at most. -/
theorem execution_of_not_isMotion (h : i.isMotion = false) (own : i.isVerbatim = false) :
    (∃ place, i.execution d value = .declare place) ∨ i.execution d value = .home ∨
      i.execution d value = .other := by
  have kept : i.keepsAbsolute = true := by
    cases i with
    | relative => cases h
    | verbatim => cases own
    | _ => rfl
  obtain ⟨code, words, line, hc⟩ := d.exists_code h kept
  have read : i.execution d value = .ofWords value (code :: words) := by
    rw [← line]
    cases i with
    | toolOff | toolOn => cases h
    | _ => rfl
  rw [read]
  exact Action.ofWords_of_not_mem value hc words

/-- Only rapid moves and cuts are executed as moves. -/
theorem eq_of_execution_eq_move (own : i.isVerbatim = false) {rapid : Bool} {f : Option ν}
    {place : AxisWords ν} (h : i.execution d value = .move rapid f place) :
    (∃ words, i = .rapid words ∧ rapid = true ∧ f = none) ∨
      ∃ feed words, i = .cut feed words ∧ rapid = false ∧
        f = feed.map fun speed => value (Decimal.shortest speed) := by
  rcases hi : i.isMotion
  · rcases execution_of_not_isMotion d value hi own with ⟨_, act⟩ | act | act <;>
    · rw [act] at h
      cases h
  · rw [execution_of_isMotion d value hi] at h
    cases i with
    | rapid words =>
      cases h
      exact .inl ⟨words, rfl, rfl, rfl⟩
    | cut feed words =>
      cases h
      exact .inr ⟨feed, words, rfl, rfl, rfl⟩
    | _ => cases h

end Instruction

/-! ## The feed of a machine -/

namespace Machine

variable [Add ν] {d : Dialect} {value : String → ν}

theorem feed_perform {i : Instruction Float} (own : i.isVerbatim = false) (m : Machine ν) :
    (m.perform (i.execution d value)).feed =
      (i.feed?.map fun speed => value (Decimal.shortest speed)).or m.feed := by
  rcases hi : i.isMotion
  · have unchanged : (m.perform (i.execution d value)).feed = m.feed := by
      rcases Instruction.execution_of_not_isMotion d value hi own with
        ⟨_, act⟩ | act | act <;> rw [act] <;> rfl
    rw [unchanged]
    cases i with
    | cut => cases hi
    | _ => rfl
  · rw [Instruction.execution_of_isMotion d value hi]
    cases i <;> rfl

/-- After a run the feed in effect is the one written last, if there is one. -/
theorem feed_run {is : List (Instruction Float)} (own : ∀ i ∈ is, i.isVerbatim = false)
    (m : Machine ν) :
    (m.run (is.map (·.execution d value))).feed =
      ((lastFeed is).map fun speed => value (Decimal.shortest speed)).or m.feed := by
  induction is generalizing m with
  | nil => rfl
  | cons i is ih =>
    obtain ⟨first, rest⟩ := List.forall_mem_cons.mp own
    show ((m.perform (i.execution d value)).run (is.map (·.execution d value))).feed = _
    rw [ih rest, feed_perform first, lastFeed, lastFeed, getLast?_filterMap_cons, Option.map_or,
      Option.or_assoc]

end Machine

/-! ## The feed of a controller -/

namespace Controller

/-- Controllers write no lines of the user's own. -/
theorem isVerbatim_of_handle {c : Controller Float} {r : Request Float} {i : Instruction Float}
    (h : (c.handle r).1 = .ok (some i)) : i.isVerbatim = false := by
  cases i with
  | verbatim line =>
    cases r with
    | move words =>
      obtain ⟨_, -, ⟨-, eq, -⟩ | ⟨-, -, eq, -⟩ | ⟨-, -, -, eq, -⟩ | ⟨-, -, -, eq, -⟩⟩ :=
        move_cases (Prod.ext h rfl : c.move words = (.ok (some (.verbatim line)), _)) <;> cases eq
    | toolOn power =>
      rw [handle] at h
      split at h <;> cases h
    | _ => cases h
  | _ => rfl

theorem isVerbatim_of_mem_emitted {rs : List (Request Float)} {c : Controller Float}
    {i : Instruction Float} (h : i ∈ c.emitted rs) : i.isVerbatim = false := by
  induction rs generalizing c with
  | nil => cases h
  | cons r rs ih =>
    rw [emitted_cons, List.mem_append, mem_issued] at h
    exact h.elim isVerbatim_of_handle ih

/-- A positive speed is left out if it is the feed written last, and no other is. -/
theorem hasFeed_eq (c : Controller Float) {speed : Float}
    (h : Settings.isPositive speed = true) : c.hasFeed speed = decide (c.feed = some speed) := by
  rw [Settings.isPositive, Bool.and_eq_true] at h
  obtain ⟨finite, positive⟩ := h
  rw [hasFeed, Bool.eq_iff_iff, decide_eq_true_iff]
  rcases c.feed with _ | feed
  · exact iff_of_false Bool.false_ne_true (fun same => by cases same)
  · rw [Option.some.injEq]
    constructor
    · exact Binary64.eq_of_pos_of_beq (of_decide_eq_true positive)
    · rintro rfl
      exact Binary64.beq_self (Binary64.isNaN_of_isFinite finite)

/-- A request that gives a cut is a move. -/
theorem move_of_handle {c : Controller Float} {r : Request Float} {feed : Option Float}
    {words : AxisWords Float} (h : (c.handle r).1 = .ok (some (.cut feed words))) :
    ∃ given, r = .move given := by
  cases r with
  | move given => exact ⟨given, rfl⟩
  | toolOn power =>
    rw [handle] at h
    split at h <;> cases h
  | _ => cases h

end Controller

/-! ## Sessions -/

section Sessions

variable [Add ν]

/-- What a machine does with the lines that requests to a fresh controller give. -/
def executed (d : Dialect) (value : String → ν) (rs : List (Request Float)) : List (Action ν) :=
  (Controller.initial.emitted rs).map (·.execution d value)

/-- The next request of a session, on a machine that obeys all lines before it. -/
structure Machine.FollowsFeed (d : Dialect) (value : String → ν) (m : Machine ν)
    (front : List (Request Float)) (next : Request Float) : Prop where
  /-- The feed in effect is the one that the lines before wrote last. -/
  written : (m.run (executed d value front)).feed =
    ((lastFeed (Controller.initial.emitted front)).map fun speed =>
      value (Decimal.shortest speed)).or m.feed
  /-- A cut is made at the cutting speed asked for last, which its line has as a word if and only if
  that is not the feed written last. -/
  cut : ∀ i feed words,
    ((Controller.initial.afterAll front).handle next).1 = .ok (some i) →
    i.execution d value = .move false feed words →
    ∃ speed, lastCut front = some speed ∧
      feed = (if lastFeed (Controller.initial.emitted front) = some speed then none
        else some (value (Decimal.shortest speed))) ∧
      ((m.run (executed d value front)).perform (.move false feed words)).feed =
        some (value (Decimal.shortest speed))
  /-- A rapid move has no feed and leaves the feed in effect as it is. -/
  rapid : ∀ i feed words,
    ((Controller.initial.afterAll front).handle next).1 = .ok (some i) →
    i.execution d value = .move true feed words →
    feed = none ∧
      ((m.run (executed d value front)).perform (.move true feed words)).feed =
        (m.run (executed d value front)).feed
  /-- A move is refused before any speed is asked for. -/
  refused : ∀ words, next = .move words → lastPace front = none →
    ((Controller.initial.afterAll front).handle next).1 = .error .undefinedSpeed
  /-- After that a move with words gives a line, which is rapid if and only if the speed asked for
  last is one of travel. -/
  moves : ∀ words, next = .move words → words.isEmpty = false → ∀ rapid speed,
    lastPace front = some (rapid, speed) → ∃ i feed place,
      ((Controller.initial.afterAll front).handle next).1 = .ok (some i) ∧
      i.execution d value = .move rapid feed place
  /-- A move that is refused or has no words gives no line and leaves the controller as it is, so
  that everything after it is what it would be without it. -/
  idle : ∀ words, next = .move words →
    ((∃ e, ((Controller.initial.afterAll front).handle next).1 = .error e) ∨
      words.isEmpty = true) →
    issued ((Controller.initial.afterAll front).handle next).1 = [] ∧
      ((Controller.initial.afterAll front).handle next).2 = Controller.initial.afterAll front ∧
      ∀ rest, ∃ later,
        Controller.initial.outcomes (front ++ rest) =
          Controller.initial.outcomes front ++ later ∧
        Controller.initial.outcomes (front ++ next :: rest) =
          Controller.initial.outcomes front ++
            ((Controller.initial.afterAll front).handle next).1 :: later

namespace Controller

/-- The speed of a fresh controller after requests is the one asked for last. -/
theorem speed_initial (rs : List (Request Float)) :
    (initial.afterAll rs).speed = (lastPace rs).map Prod.snd :=
  (speed_afterAll initial rs).trans Option.or_none

theorem feed_initial (rs : List (Request Float)) :
    (initial.afterAll rs).feed = lastFeed (initial.emitted rs) :=
  (feed_afterAll initial rs).trans Option.or_none

/-- What a cut of a session is, for the speed asked for last. -/
theorem cut_of_handle {front : List (Request Float)} {next : Request Float} {feed : Option Float}
    {words : AxisWords Float} (positive : ∀ speed, .cutAt speed ∈ front →
      Settings.isPositive speed = true)
    (h : ((initial.afterAll front).handle next).1 = .ok (some (.cut feed words))) :
    ∃ speed, lastCut front = some speed ∧
      feed = if lastFeed (initial.emitted front) = some speed then none else some speed := by
  obtain ⟨given, rfl⟩ := move_of_handle h
  obtain ⟨speed, set, cutting, written⟩ := feed_of_move
    (Prod.ext h rfl : (initial.afterAll front).move given = (.ok (some (.cut feed words)), _))
  rw [speed_initial, Option.map_eq_some_iff] at set
  obtain ⟨⟨rapid, other⟩, pace, same⟩ := set
  obtain rfl : speed = other := same.symm
  rw [travelling_afterAll, pace] at cutting
  obtain rfl : rapid = false := cutting
  have last := lastCut_of_lastPace pace
  refine ⟨speed, last, ?_⟩
  rw [written, hasFeed_eq _ (positive speed (mem_of_lastCut last)), feed_initial]
  simp only [decide_eq_true_eq]

/-- A move is refused before any speed is asked for. -/
theorem move_of_lastPace_eq_none {front : List (Request Float)} (h : lastPace front = none)
    (words : AxisWords Float) :
    ((initial.afterAll front).move words).1 = .error .undefinedSpeed := by
  have unset := speed_initial front
  rw [h] at unset
  rw [move, unset]
  rfl

/-- After that a move with words is rapid or a cut, as was asked for last. -/
theorem move_of_lastPace {front : List (Request Float)} {rapid : Bool} {speed : Float}
    (h : lastPace front = some (rapid, speed)) {words : AxisWords Float}
    (hw : words.isEmpty = false) :
    (rapid = true ∧ ((initial.afterAll front).move words).1 = .ok (some (.rapid words))) ∨
      (rapid = false ∧ ∃ feed,
        ((initial.afterAll front).move words).1 = .ok (some (.cut feed words))) := by
  have set := speed_initial front
  have travelling := travelling_afterAll initial front
  rw [h] at set travelling
  have moved := move_of_speed hw set
  rw [travelling] at moved
  exact moved

end Controller

theorem Machine.written_run (d : Dialect) (value : String → ν) (m : Machine ν)
    (rs : List (Request Float)) :
    (m.run (executed d value rs)).feed =
      ((lastFeed (Controller.initial.emitted rs)).map fun speed =>
        value (Decimal.shortest speed)).or m.feed :=
  m.feed_run fun _ mem => Controller.isVerbatim_of_mem_emitted mem

/-- In every session with positive cutting speeds every cut is made at the one asked for last, feeds
are written only where they change, and moves without effect leave no trace. -/
theorem Machine.followsFeed (d : Dialect) (value : String → ν) (m : Machine ν)
    (front : List (Request Float)) (next : Request Float)
    (positive : ∀ speed, .cutAt speed ∈ front → Settings.isPositive speed = true) :
    m.FollowsFeed d value front next where
  written := m.written_run d value front
  cut := by
    intro i feed place given act
    rcases Instruction.eq_of_execution_eq_move d value (Controller.isVerbatim_of_handle given)
      act with ⟨_, _, eq, _⟩ | ⟨written, words, rfl, -, rfl⟩
    · cases eq
    obtain ⟨speed, last, rfl⟩ := Controller.cut_of_handle positive given
    refine ⟨speed, last, ?_, ?_⟩
    · split <;> rfl
    · show Option.or _ (m.run _).feed = _
      rw [m.written_run]
      split
      · rename_i same
        rw [same]
        rfl
      · rfl
  rapid := by
    intro i feed place given act
    rcases Instruction.eq_of_execution_eq_move d value (Controller.isVerbatim_of_handle given)
      act with ⟨_, -, -, rfl⟩ | ⟨_, _, _, eq, _⟩
    · exact ⟨rfl, rfl⟩
    · cases eq
  refused := by
    rintro words rfl none
    exact Controller.move_of_lastPace_eq_none none words
  moves := by
    rintro words rfl hw rapid speed pace
    rcases Controller.move_of_lastPace pace hw with ⟨rfl, given⟩ | ⟨rfl, feed, given⟩
    · exact ⟨_, _, _, given, Instruction.execution_of_isMotion d value rfl⟩
    · exact ⟨_, _, _, given, Instruction.execution_of_isMotion d value rfl⟩
  idle := by
    rintro words rfl idle
    obtain ⟨nothing, same⟩ := Controller.move_of_idle idle
    refine ⟨nothing, same, fun rest => ⟨(Controller.initial.afterAll front).outcomes rest, ?_, ?_⟩⟩
    · exact Controller.outcomes_append _ _ _
    · rw [Controller.outcomes_append]
      show _ ++ _ :: ((Controller.initial.afterAll front).move words).2.outcomes rest = _
      rw [same]

end Sessions

/-- Requests for two cuts at one speed, with a travel at that speed between them. -/
def aroundTravel : List (Request Float) :=
  [.cutAt 750, .move (.plane 1 2), .move ⟨none, none, none⟩, .travelAt 750, .move (.plane 0 0),
    .cutAt 750]

/-- The second of the cuts has no feed as a word, and is made at the one in effect. -/
theorem Machine.followsFeed_around_travel :
    (∀ speed, .cutAt speed ∈ aroundTravel → Settings.isPositive speed = true) ∧
      (Controller.initial.emitted (aroundTravel ++ [.move ⟨some 5, none, none⟩])).map
          (Dialect.line ⟨1, none⟩) = ["G1 F750 X1.0 Y2.0;", "G0 X0.0 Y0.0;", "G1 X5.0;"] ∧
      ((⟨false, false, none, ⟨none, none, none⟩⟩ : Machine Nat).run
        (executed ⟨1, none⟩ (fun number => Literal.digitsValue number.toList)
          (aroundTravel ++ [.move ⟨some 5, none, none⟩]))).feed = some 750 ∧
      (⟨false, false, none, ⟨none, none, none⟩⟩ : Machine Nat).FollowsFeed ⟨1, none⟩
        (fun number => Literal.digitsValue number.toList) aroundTravel
        (.move ⟨some 5, none, none⟩) := by
  have positive : ∀ speed, .cutAt speed ∈ aroundTravel → Settings.isPositive speed = true := by
    intro speed mem
    simp only [aroundTravel, List.mem_cons, Request.cutAt.injEq, reduceCtorEq, List.not_mem_nil,
      false_or, or_false, or_self] at mem
    rw [mem]
    decide +kernel
  exact ⟨positive, by decide +kernel, by decide +kernel, Machine.followsFeed _ _ _ _ _ positive⟩

end LaserCut.Gcode
