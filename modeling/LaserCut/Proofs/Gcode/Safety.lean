import LaserCut.Proofs.Gcode.Passes

/-!
# Passes on a machine

The passes of a program do no harm on a machine with absolute distances, whatever else it did
before, and each of them burns the same lines (`cutsSafely_passesOf`).

The body is drawn by a machine in the midst of cutting (`Machine.Cutting`). A step down leaves the
laser off and distances absolute, which is all that the body asks for.
-/

namespace LaserCut.Gcode

namespace Action

variable {ν : Type}

/-- A move that has a word for the height. -/
def movesHeight : Action ν → Bool
  | .move _ _ words => words.z.isSome
  | _ => false

end Action

/-- The passes of a program, each of which ends in the body, do no harm. After every move of the
height there still is a whole body to come, and all passes burn the same lines. -/
structure Machine.CutsSafely {ν : Type} [Add ν] (m : Machine ν) (feed : ν)
    (body : List (Action ν)) (passes : List (List (Action ν))) : Prop where
  safe : m.Safe feed passes.flatten
  height : ∀ before a after, passes.flatten = before ++ a :: after → a.movesHeight = true →
    body <:+ after
  burnt : ∃ lines, ∀ k, (h : k < passes.length) →
    (m.run (passes.take k).flatten).polylines passes[k] = lines

/-- What instructions are meant to do, in order. -/
def actions {ν : Type} (d : Dialect) (value : String → ν) (is : List (Instruction Float)) :
    List (Action ν) := is.map (Instruction.action d value)

theorem actions_append {ν : Type} {d : Dialect} {value : String → ν}
    (is js : List (Instruction Float)) :
    actions d value (is ++ js) = actions d value is ++ actions d value js := List.map_append

theorem flatten_map_actions {ν : Type} {d : Dialect} {value : String → ν}
    (passes : List (List (Instruction Float))) :
    (passes.map (actions d value)).flatten = actions d value passes.flatten :=
  List.map_flatten.symm

/-- The passes end in the body. -/
theorem exists_flatten_passesOf {α : Type} [Scalar α] (motion : Motion α)
    {curves : List (Curve α)} (ne : curves ≠ []) (count : Nat) :
    ∃ front, (passesOf motion curves count).flatten = front ++ bodyOf motion curves := by
  rw [passesOf, List.isEmpty_eq_false_iff.mpr ne, if_neg Bool.false_ne_true]
  rcases List.eq_nil_or_concat (passSteps motion count) with none | ⟨steps, last, some⟩
  · exact ⟨[], by rw [none]; simp⟩
  · refine ⟨bodyOf motion curves ++ (steps.map fun step =>
      descent motion step ++ bodyOf motion curves).flatten ++ descent motion last, ?_⟩
    rw [some]
    simp

theorem movesHeight_of_mem_bodyOf {ν : Type} {d : Dialect} {value : String → ν}
    {motion : Motion Float} {curves : List (Curve Float)} {a : Action ν}
    (h : a ∈ actions d value (bodyOf motion curves)) : a.movesHeight = false := by
  obtain ⟨i, hi, rfl⟩ := List.mem_map.mp h
  have planar := isPlanar_bodyOf motion curves i hi
  cases i with
  | rapid words | cut f words =>
    rcases words with ⟨x, y, _ | z⟩
    · rfl
    · cases planar
  | _ => rfl

/-- Where an action is found that does not occur at the end of a list, all of that end follows. -/
theorem suffix_of_append_eq {γ : Type} {front tail before after : List γ} {a : γ}
    (h : front ++ tail = before ++ a :: after) (ha : a ∉ tail) : tail <:+ after := by
  rcases List.append_eq_append_iff.mp h with ⟨more, -, rest⟩ | ⟨more, -, rest⟩
  · rw [rest] at ha
    exact absurd (List.mem_append_right more List.mem_cons_self) ha
  · rcases more with _ | ⟨b, more⟩
    · rw [List.nil_append] at rest
      rw [← rest] at ha
      exact absurd List.mem_cons_self ha
    · rw [List.cons_append, List.cons.injEq] at rest
      exact ⟨more, rest.2.symm⟩

section Runs

variable {ν : Type} [Add ν] (d : Dialect) (value : String → ν) {feed : ν} {m n : Machine ν}

/-! ## The body -/

/-- A machine in the midst of cutting. -/
structure Machine.Cutting (feed : ν) (m : Machine ν) : Prop where
  laser : m.laser = true
  relative : m.relative = false
  feed : m.feed = some feed

theorem safe_cuts (h : m.Cutting feed) (points : List (Point Float)) :
    m.Safe feed (actions d value (points.map cutTo)) ∧
      (m.run (actions d value (points.map cutTo))).Cutting feed := by
  induction points generalizing m with
  | nil => exact ⟨Machine.safe_nil, h⟩
  | cons p points ih =>
    have permitted : m.Permits feed ((cutTo p).action d value) :=
      Machine.permits_cut h.laser h.relative h.feed
    have next : (m.perform ((cutTo p).action d value)).Cutting feed :=
      ⟨h.laser, h.relative, h.feed⟩
    exact ⟨Machine.safe_cons.mpr ⟨permitted, (ih next).1⟩, (ih next).2⟩

/-- The cut that brings the feed into effect, and those after it. -/
theorem safe_first_cuts {f : Float} (laser : m.laser = true) (relative : m.relative = false)
    {points : List (Point Float)} (ne : points ≠ []) :
    m.Safe (value (Decimal.shortest f)) (actions d value (withFeed f (points.map cutTo))) ∧
      (m.run (actions d value (withFeed f (points.map cutTo)))).Cutting
        (value (Decimal.shortest f)) := by
  rcases points with _ | ⟨p, points⟩
  · exact absurd rfl ne
  · let first : Action ν := (Instruction.cut (some f) (.plane p.x p.y)).action d value
    have permitted : m.Permits (value (Decimal.shortest f)) first :=
      Machine.permits_cut laser relative rfl
    have next : (m.perform first).Cutting (value (Decimal.shortest f)) := ⟨laser, relative, rfl⟩
    have rest := safe_cuts d value next points
    exact ⟨Machine.safe_cons.mpr ⟨permitted, rest.1⟩, rest.2⟩

theorem safe_travel (relative : m.relative = false) (start : Point Float) :
    m.Safe feed (actions d value (travel start)) :=
  Machine.safe_cons.mpr ⟨trivial, Machine.safe_cons.mpr
    ⟨Machine.permits_rapid rfl relative, Machine.safe_cons.mpr ⟨trivial, Machine.safe_nil⟩⟩⟩

theorem safe_moves (h : m.Cutting feed) (tolerance : Float) (curves : List (Curve Float)) :
    ∀ previous, m.Safe feed (actions d value (moves tolerance (some previous) curves)) ∧
      (m.run (actions d value (moves tolerance (some previous) curves))).Cutting feed := by
  induction curves generalizing m with
  | nil => exact fun _ => ⟨Machine.safe_nil, h⟩
  | cons curve rest ih =>
    intro previous
    rw [moves, actions_append, actions_append, Machine.safe_append, Machine.safe_append,
      Machine.run_append, Machine.run_append]
    split
    · have cuts := safe_cuts d value h (curve.flatten tolerance)
      exact ⟨⟨⟨Machine.safe_nil, cuts.1⟩, (ih cuts.2 curve).1⟩, (ih cuts.2 curve).2⟩
    · have arrived : (m.run (actions d value (travel curve.start))).Cutting feed :=
        ⟨rfl, h.relative, h.feed⟩
      have cuts := safe_cuts d value arrived (curve.flatten tolerance)
      exact ⟨⟨⟨safe_travel d value h.relative curve.start, cuts.1⟩, (ih cuts.2 curve).1⟩,
        (ih cuts.2 curve).2⟩

/-- The body asks for nothing but absolute distances. -/
theorem safe_bodyOf (relative : m.relative = false) (motion : Motion Float)
    (curves : List (Curve Float)) :
    m.Safe (value (Decimal.shortest motion.cuttingSpeed)) (actions d value (bodyOf motion curves)) ∧
      (m.run (actions d value (bodyOf motion curves))).relative = false := by
  rcases curves with _ | ⟨curve, rest⟩
  · exact ⟨Machine.safe_nil, relative⟩
  · have first := safe_first_cuts d value (f := motion.cuttingSpeed)
      (m := m.run (actions d value (travel curve.start))) rfl relative
      (curve.flatten_ne_nil motion.tolerance)
    have others := safe_moves d value first.2 motion.tolerance rest curve
    rw [bodyOf_cons, actions_append, actions_append, Machine.safe_append, Machine.safe_append,
      Machine.run_append, Machine.run_append]
    exact ⟨⟨⟨safe_travel d value relative curve.start, first.1⟩, others.1⟩, others.2.relative⟩

/-- What the body burns does not depend on what was done before. -/
theorem polylines_bodyOf (hm : m.relative = false) (hn : n.relative = false)
    (motion : Motion Float) (curves : List (Curve Float)) :
    m.polylines (actions d value (bodyOf motion curves)) =
      n.polylines (actions d value (bodyOf motion curves)) := by
  rcases curves with _ | ⟨curve, rest⟩
  · rcases m with ⟨_ | _, _, _, _⟩ <;> rcases n with ⟨_ | _, _, _, _⟩ <;> rfl
  · exact Machine.polylines_travel hm hn _ _ _

/-! ## Steps down -/

theorem safe_descent (motion : Motion Float) (step : Float) :
    m.Safe feed (actions d value (descent motion step)) := by
  rw [descent]
  split
  · exact Machine.safe_cons.mpr ⟨trivial, Machine.safe_cons.mpr ⟨trivial, Machine.safe_cons.mpr
      ⟨Machine.permits_height rfl rfl, Machine.safe_cons.mpr ⟨trivial, Machine.safe_nil⟩⟩⟩⟩
  · exact Machine.safe_cons.mpr ⟨trivial, Machine.safe_nil⟩

theorem relative_run_descent (relative : m.relative = false) (motion : Motion Float)
    (step : Float) : (m.run (actions d value (descent motion step))).relative = false := by
  rw [descent]
  split
  · rfl
  · exact relative

/-- A step down burns nothing. -/
theorem polylines_descent (motion : Motion Float) (step : Float) (rest : List (Action ν)) :
    m.polylines (actions d value (descent motion step) ++ rest) =
      (m.run (actions d value (descent motion step))).polylines rest := by
  rw [descent]
  split
  · show m.polylines (.laser false :: .distances true :: _ :: .distances false :: rest) = _
    rw [Machine.polylines_laser_off, Machine.polylines_cons rfl rfl,
      Machine.polylines_cons rfl rfl, Machine.polylines_cons rfl rfl]
    rfl
  · exact Machine.polylines_laser_off rest

/-! ## All passes -/

variable {motion : Motion Float} {curves : List (Curve Float)} {count : Nat}

theorem safe_pass (hm : m.relative = false) {pass : List (Instruction Float)}
    (hp : pass ∈ passesOf motion curves count) :
    m.Safe (value (Decimal.shortest motion.cuttingSpeed)) (actions d value pass) ∧
      (m.run (actions d value pass)).relative = false := by
  rw [passesOf] at hp
  split at hp
  · rw [List.eq_of_mem_replicate hp]
    exact ⟨Machine.safe_nil, hm⟩
  · rcases List.mem_cons.mp hp with rfl | hp
    · exact safe_bodyOf d value hm motion curves
    · obtain ⟨step, -, rfl⟩ := List.mem_map.mp hp
      have body := safe_bodyOf d value (relative_run_descent d value hm motion step) motion curves
      rw [actions_append, Machine.safe_append, Machine.run_append]
      exact ⟨⟨safe_descent d value motion step, body.1⟩, body.2⟩

/-- Every pass burns what the body burns. -/
theorem polylines_pass (hm : m.relative = false) (hn : n.relative = false)
    {pass : List (Instruction Float)} (hp : pass ∈ passesOf motion curves count) :
    m.polylines (actions d value pass) = n.polylines (actions d value (bodyOf motion curves)) := by
  rw [passesOf] at hp
  split at hp
  · rename_i none
    rw [List.eq_of_mem_replicate hp, List.isEmpty_iff.mp none]
    exact polylines_bodyOf d value hm hn motion []
  · rcases List.mem_cons.mp hp with rfl | hp
    · exact polylines_bodyOf d value hm hn motion curves
    · obtain ⟨step, -, rfl⟩ := List.mem_map.mp hp
      rw [actions_append, polylines_descent]
      exact polylines_bodyOf d value (relative_run_descent d value hm motion step) hn motion curves

/-- A run of passes keeps distances absolute, so that the next pass can follow. -/
theorem safe_passes {passes : List (List (Instruction Float))}
    (hp : ∀ pass ∈ passes, pass ∈ passesOf motion curves count) (hm : m.relative = false) :
    m.Safe (value (Decimal.shortest motion.cuttingSpeed)) (actions d value passes.flatten) ∧
      (m.run (actions d value passes.flatten)).relative = false := by
  induction passes generalizing m with
  | nil => exact ⟨Machine.safe_nil, hm⟩
  | cons pass passes ih =>
    obtain ⟨hpass, hpasses⟩ := List.forall_mem_cons.mp hp
    have first := safe_pass d value hm hpass
    rw [List.flatten_cons, actions_append, Machine.safe_append, Machine.run_append]
    exact ⟨⟨first.1, (ih hpasses first.2).1⟩, (ih hpasses first.2).2⟩

/-- On a machine with absolute distances the passes of a program do no harm. -/
theorem cutsSafely_passesOf (hm : m.relative = false) (motion : Motion Float)
    (curves : List (Curve Float)) (count : Nat) :
    m.CutsSafely (value (Decimal.shortest motion.cuttingSpeed))
      (actions d value (bodyOf motion curves))
      ((passesOf motion curves count).map (actions d value)) where
  safe := by
    rw [flatten_map_actions]
    exact (safe_passes d value (fun _ h => h) hm).1
  height := by
    intro before a after h ha
    rw [flatten_map_actions] at h
    rcases curves with _ | ⟨curve, rest⟩
    · rw [flatten_passesOf_nil] at h
      exact absurd h.symm (List.append_ne_nil_of_right_ne_nil before (List.cons_ne_nil a after))
    · obtain ⟨front, last⟩ := exists_flatten_passesOf motion (List.cons_ne_nil curve rest) count
      rw [last, actions_append] at h
      refine suffix_of_append_eq h fun mem => ?_
      rw [movesHeight_of_mem_bodyOf mem] at ha
      cases ha
  burnt := by
    refine ⟨m.polylines (actions d value (bodyOf motion curves)), fun k hk => ?_⟩
    rw [List.getElem_map, ← List.map_take, flatten_map_actions]
    have taken : ∀ pass ∈ (passesOf motion curves count).take k,
        pass ∈ passesOf motion curves count := fun _ h => List.mem_of_mem_take h
    exact polylines_pass d value (safe_passes d value taken hm).2 hm (List.getElem_mem _)

end Runs
end LaserCut.Gcode
