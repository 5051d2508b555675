import LaserCut.Gcode.Controller

/-!
# Sessions with a controller

Requests in any order, of which some may be refused. A refusal does not end a session and leaves the
controller as it was.

* `Controller.afterAll`, `Controller.outcomes`, `Controller.emitted`: the controller after requests,
  what each of them gives, and the instructions among that;
* `Controller.move_cases`: all that a move can give;
* `Controller.speed_afterAll`, `Controller.feed_afterAll`: what the controller remembers is the last
  pace that was asked for and the last feed that was emitted.
-/

namespace LaserCut.Gcode

variable {α : Type}

/-! ## What was asked for last -/

namespace Request

/-- The pace that a request sets: whether moves are rapid from now on, and the speed. -/
def pace? : Request α → Option (Bool × α)
  | .travelAt speed => some (true, speed)
  | .cutAt speed => some (false, speed)
  | _ => none

/-- The cutting speed that a request sets. -/
def cutting? : Request α → Option α
  | .cutAt speed => some speed
  | _ => none

end Request

/-- The pace that was asked for last. -/
def lastPace (rs : List (Request α)) : Option (Bool × α) := (rs.filterMap Request.pace?).getLast?

/-- The cutting speed that was asked for last. -/
def lastCut (rs : List (Request α)) : Option α := (rs.filterMap Request.cutting?).getLast?

/-- The feed that an instruction has as a word. -/
def Instruction.feed? : Instruction α → Option α
  | .cut feed _ => feed
  | _ => none

/-- The feed that was written last. -/
def lastFeed (is : List (Instruction α)) : Option α := (is.filterMap Instruction.feed?).getLast?

theorem getLast?_filterMap_cons {β γ : Type} (f : β → Option γ) (b : β) (bs : List β) :
    ((b :: bs).filterMap f).getLast? = (bs.filterMap f).getLast?.or (f b) := by
  rcases h : f b with _ | c
  · rw [List.filterMap_cons_none h, Option.or_none]
  · rw [List.filterMap_cons_some h, List.getLast?_cons, Option.or_some]

theorem lastFeed_append (as bs : List (Instruction α)) :
    lastFeed (as ++ bs) = (lastFeed bs).or (lastFeed as) := by
  rw [lastFeed, List.filterMap_append, List.getLast?_append]
  rfl

theorem mem_of_lastCut {rs : List (Request α)} {speed : α} (h : lastCut rs = some speed) :
    .cutAt speed ∈ rs := by
  obtain ⟨r, hr, cutting⟩ := List.mem_filterMap.mp (List.mem_of_getLast? h)
  cases r <;> cases cutting
  exact hr

theorem lastCut_of_lastPace_eq_none {rs : List (Request α)} (h : lastPace rs = none) :
    lastCut rs = none := by
  rw [lastPace, List.getLast?_eq_none_iff, List.filterMap_eq_nil_iff] at h
  rw [lastCut, List.getLast?_eq_none_iff, List.filterMap_eq_nil_iff]
  intro r hr
  have none := h r hr
  cases r with
  | cutAt speed => cases none
  | _ => rfl

/-- If the last pace is that of cuts, its speed is the last one asked for. -/
theorem lastCut_of_lastPace {rs : List (Request α)} {speed : α}
    (h : lastPace rs = some (false, speed)) : lastCut rs = some speed := by
  induction rs with
  | nil => cases h
  | cons r rs ih =>
    rw [lastPace, getLast?_filterMap_cons, ← lastPace] at h
    rw [lastCut, getLast?_filterMap_cons, ← lastCut]
    rcases hp : lastPace rs with _ | pace
    · rw [hp, Option.none_or] at h
      rw [lastCut_of_lastPace_eq_none hp, Option.none_or]
      cases r <;> cases h
      rfl
    · rw [hp, Option.some_or] at h
      rw [ih (hp.trans h), Option.some_or]

/-! ## Sessions -/

/-- The instruction that an outcome is, if it is one. -/
def issued : Except (MotionError α) (Option (Instruction α)) → List (Instruction α)
  | .ok i => i.toList
  | .error _ => []

namespace Controller

variable [Scalar α]

/-- The controller after requests. -/
def afterAll (c : Controller α) (rs : List (Request α)) : Controller α :=
  rs.foldl (fun c r => (c.handle r).2) c

/-- What each of the requests gives. -/
def outcomes (c : Controller α) :
    List (Request α) → List (Except (MotionError α) (Option (Instruction α)))
  | [] => []
  | r :: rs => (c.handle r).1 :: (c.handle r).2.outcomes rs

/-- The instructions that requests give. -/
def emitted (c : Controller α) (rs : List (Request α)) : List (Instruction α) :=
  (c.outcomes rs).flatMap issued

theorem outcomes_append (c : Controller α) (as bs : List (Request α)) :
    c.outcomes (as ++ bs) = c.outcomes as ++ (c.afterAll as).outcomes bs := by
  induction as generalizing c with
  | nil => rfl
  | cons a as ih => exact congrArg _ (ih (c.handle a).2)

theorem emitted_cons (c : Controller α) (r : Request α) (rs : List (Request α)) :
    c.emitted (r :: rs) = issued (c.handle r).1 ++ (c.handle r).2.emitted rs := rfl

/-! ## One request -/

/-- All that a move with words gives if it is not refused. -/
theorem move_cases {c d : Controller α} {words : AxisWords α} {i : Option (Instruction α)}
    (h : c.move words = (.ok i, d)) :
    ∃ speed, c.speed = some speed ∧
      ((words.isEmpty = true ∧ i = none ∧ d = c) ∨
        (words.isEmpty = false ∧ c.travelling = true ∧ i = some (.rapid words) ∧
          d = { c with position := moved c.position words }) ∨
        (words.isEmpty = false ∧ c.travelling = false ∧ c.hasFeed speed = true ∧
          i = some (.cut none words) ∧ d = { c with position := moved c.position words }) ∨
        (words.isEmpty = false ∧ c.travelling = false ∧ c.hasFeed speed = false ∧
          i = some (.cut (some speed) words) ∧
          d = { c with position := moved c.position words, feed := some speed })) := by
  rw [move] at h
  split at h
  · cases h
  · rename_i speed set
    refine ⟨speed, set, ?_⟩
    split at h
    · cases h
      exact .inl ⟨‹_›, rfl, rfl⟩
    · rename_i some
      rw [Bool.not_eq_true] at some
      split at h
      · cases h
        exact .inr (.inl ⟨some, ‹_›, rfl, rfl⟩)
      · rename_i cutting
        rw [Bool.not_eq_true] at cutting
        split at h
        · cases h
          exact .inr (.inr (.inl ⟨some, cutting, ‹_›, rfl, rfl⟩))
        · rename_i other
          rw [Bool.not_eq_true] at other
          cases h
          exact .inr (.inr (.inr ⟨some, cutting, other, rfl, rfl⟩))

/-- A cut is made at the speed that is set, with a feed if another one is in effect. -/
theorem feed_of_move {c d : Controller α} {given words : AxisWords α} {feed : Option α}
    (h : c.move given = (.ok (some (.cut feed words)), d)) :
    ∃ speed, c.speed = some speed ∧ c.travelling = false ∧
      feed = if c.hasFeed speed then none else some speed := by
  obtain ⟨speed, set, ⟨-, eq, -⟩ | ⟨-, -, eq, -⟩ | ⟨-, cutting, same, eq, -⟩ |
    ⟨-, cutting, other, eq, -⟩⟩ := move_cases h
  · cases eq
  · cases eq
  · cases eq
    exact ⟨speed, set, cutting, by rw [if_pos same]⟩
  · cases eq
    refine ⟨speed, set, cutting, ?_⟩
    rw [other]
    rfl

/-- With a speed that is set, a move with words is rapid or a cut, as was asked for. -/
theorem move_of_speed {c : Controller α} {words : AxisWords α} (hw : words.isEmpty = false)
    {speed : α} (set : c.speed = some speed) :
    (c.travelling = true ∧ (c.move words).1 = .ok (some (.rapid words))) ∨
      (c.travelling = false ∧ ∃ feed, (c.move words).1 = .ok (some (.cut feed words))) := by
  rw [move, set]
  dsimp only
  rw [hw, if_neg Bool.false_ne_true]
  cases c.travelling with
  | true => exact .inl ⟨rfl, rfl⟩
  | false =>
    refine .inr ⟨rfl, ?_⟩
    rw [if_neg Bool.false_ne_true]
    split <;> exact ⟨_, rfl⟩

/-- A move that is refused or has no words gives no instruction and changes nothing. -/
theorem move_of_idle {c : Controller α} {words : AxisWords α}
    (h : (∃ e, (c.move words).1 = .error e) ∨ words.isEmpty = true) :
    issued (c.move words).1 = [] ∧ (c.move words).2 = c := by
  rw [move] at h ⊢
  split at h
  · exact ⟨rfl, rfl⟩
  · rcases h with ⟨e, refused⟩ | empty
    · split at refused
      · cases refused
      · split at refused
        · cases refused
        · split at refused <;> cases refused
    · rw [if_pos empty]
      exact ⟨rfl, rfl⟩

/-- A move keeps the pace. -/
theorem pace_move (c : Controller α) (words : AxisWords α) :
    (c.move words).2.speed = c.speed ∧ (c.move words).2.travelling = c.travelling := by
  rw [move]
  repeat' split
  all_goals exact ⟨rfl, rfl⟩

theorem speed_handle (c : Controller α) (r : Request α) :
    (c.handle r).2.speed = (r.pace?.map Prod.snd).or c.speed := by
  cases r with
  | move words => exact (c.pace_move words).1
  | toolOn power =>
    rw [handle]
    split <;> rfl
  | _ => rfl

theorem travelling_handle (c : Controller α) (r : Request α) :
    (c.handle r).2.travelling = (r.pace?.map Prod.fst).getD c.travelling := by
  cases r with
  | move words => exact (c.pace_move words).2
  | toolOn power =>
    rw [handle]
    split <;> rfl
  | _ => rfl

theorem feed_handle (c : Controller α) (r : Request α) :
    (c.handle r).2.feed = (lastFeed (issued (c.handle r).1)).or c.feed := by
  cases r with
  | move words =>
    rw [handle, move]
    repeat' split
    all_goals rfl
  | toolOn power =>
    rw [handle]
    split <;> rfl
  | _ => rfl

/-! ## Many requests -/

theorem speed_afterAll (c : Controller α) (rs : List (Request α)) :
    (c.afterAll rs).speed = ((lastPace rs).map Prod.snd).or c.speed := by
  induction rs generalizing c with
  | nil => rfl
  | cons r rs ih =>
    show ((c.handle r).2.afterAll rs).speed = _
    rw [ih, speed_handle, lastPace, lastPace, getLast?_filterMap_cons, Option.map_or,
      Option.or_assoc]

theorem travelling_afterAll (c : Controller α) (rs : List (Request α)) :
    (c.afterAll rs).travelling = ((lastPace rs).map Prod.fst).getD c.travelling := by
  induction rs generalizing c with
  | nil => rfl
  | cons r rs ih =>
    show ((c.handle r).2.afterAll rs).travelling = _
    rw [ih, travelling_handle, lastPace, lastPace, getLast?_filterMap_cons]
    rcases (rs.filterMap Request.pace?).getLast? with _ | pace <;> rfl

theorem feed_afterAll (c : Controller α) (rs : List (Request α)) :
    (c.afterAll rs).feed = (lastFeed (c.emitted rs)).or c.feed := by
  induction rs generalizing c with
  | nil => rfl
  | cons r rs ih =>
    show ((c.handle r).2.afterAll rs).feed = _
    rw [ih, feed_handle, emitted_cons, lastFeed_append, Option.or_assoc]

end Controller
end LaserCut.Gcode
