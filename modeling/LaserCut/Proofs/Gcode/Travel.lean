import LaserCut.Proofs.Gcode.Safety

/-!
# The laser between cuts

When the laser is on in a run, and whether rapid moves are made with the laser off
(`Machine.TravelsDark`).

* `travelsDark_of_safe`: they are wherever a run does no harm;
* `travelsDark_iff_of_isSwitch`: with the laser on and no switch of it they are only if there are
  none;
* `laser_run_passesOf`: passes that draw something leave the laser on.
-/

namespace LaserCut.Gcode

variable {ν : Type}

namespace Action

/-- A rapid move. -/
def isRapid : Action ν → Bool
  | .move rapid _ _ => rapid
  | _ => false

/-- A switch of the laser, on or off. -/
def isSwitch : Action ν → Bool
  | .laser _ => true
  | _ => false

theorem ne_on_of_isSwitch {a : Action ν} (h : a.isSwitch = false) : a ≠ .laser true := by
  intro on
  rw [on] at h
  cases h

section OfLine

variable (value : String → ν)

theorem isSwitch_ofWords (words : List Word) : (ofWords value words).isSwitch = false := by
  rcases words with _ | ⟨code, words⟩
  · rfl
  · rw [ofWords]
    repeat' split
    all_goals rfl

theorem isRapid_ofWords (words : List Word) :
    (ofWords value words).isRapid = (words.head? == some ⟨'G', "0"⟩) := by
  rcases words with _ | ⟨code, words⟩
  · rfl
  · rw [List.head?_cons]
    by_cases rapid : code = ⟨'G', "0"⟩
    · rw [ofWords, if_pos rapid, rapid]
      rfl
    · have other : (some code == some (⟨'G', "0"⟩ : Word)) = false := by
        rw [beq_eq_false_iff_ne, ne_eq, Option.some.injEq]
        exact rapid
      rw [ofWords, if_neg rapid, other]
      repeat' split
      all_goals rfl

variable {tool : ToolCommands} {line : String} (h : line ≠ tool.off ∧ line ≠ tool.on)

include h

theorem isSwitch_ofLine : (ofLine value tool line).isSwitch = false := by
  rw [ofLine, if_neg h.1, if_neg h.2]
  exact isSwitch_ofWords value _

theorem isRapid_ofLine :
    (ofLine value tool line).isRapid = ((lineWords line).head? == some ⟨'G', "0"⟩) := by
  rw [ofLine, if_neg h.1, if_neg h.2]
  exact isRapid_ofWords value _

end OfLine

end Action

namespace Machine

variable [Add ν] {m : Machine ν} {as bs : List (Action ν)}

/-- Every rapid move of a run is made with the laser off. -/
def TravelsDark (m : Machine ν) (actions : List (Action ν)) : Prop :=
  ∀ step ∈ m.steps actions, step.2.isRapid = true → step.1.laser = false

theorem travelsDark_append :
    m.TravelsDark (as ++ bs) ↔ m.TravelsDark as ∧ (m.run as).TravelsDark bs := by
  rw [TravelsDark, steps_append, List.forall_mem_append]
  rfl

theorem travelsDark_cons {a : Action ν} :
    m.TravelsDark (a :: as) ↔
      (a.isRapid = true → m.laser = false) ∧ (m.perform a).TravelsDark as := by
  rw [TravelsDark, steps, List.forall_mem_cons]
  rfl

theorem travelsDark_of_safe {feed : ν} (h : m.Safe feed as) : m.TravelsDark as := by
  intro step mem rapid
  have permitted := h step mem
  rcases step with ⟨n, a⟩
  cases a with
  | move quick f words => exact permitted.1 rapid
  | _ => cases rapid

/-- Only switches change whether the laser is on. -/
theorem laser_perform {a : Action ν} (h : a.isSwitch = false) : (m.perform a).laser = m.laser := by
  cases a with
  | laser on => cases h
  | _ => rfl

theorem laser_run (h : ∀ a ∈ as, a.isSwitch = false) : (m.run as).laser = m.laser := by
  induction as generalizing m with
  | nil => rfl
  | cons a as ih =>
    obtain ⟨ha, has⟩ := List.forall_mem_cons.mp h
    exact (ih has).trans (laser_perform ha)

/-- A laser that is off stays off until it is switched on. -/
theorem travelsDark_of_ne_on (off : m.laser = false) (h : ∀ a ∈ as, a ≠ .laser true) :
    m.TravelsDark as ∧ (m.run as).laser = false := by
  induction as generalizing m with
  | nil => exact ⟨fun _ h => absurd h List.not_mem_nil, off⟩
  | cons a as ih =>
    obtain ⟨ha, has⟩ := List.forall_mem_cons.mp h
    have after : (m.perform a).laser = false := by
      cases a with
      | laser on =>
        rcases on with _ | _
        · rfl
        · exact absurd rfl ha
      | _ => exact off
    exact ⟨travelsDark_cons.mpr ⟨fun _ => off, (ih after has).1⟩, (ih after has).2⟩

theorem travelsDark_iff_of_isSwitch (on : m.laser = true) (h : ∀ a ∈ as, a.isSwitch = false) :
    m.TravelsDark as ↔ ∀ a ∈ as, a.isRapid = false := by
  induction as generalizing m with
  | nil =>
    exact ⟨fun _ _ h => absurd h List.not_mem_nil, fun _ _ h => absurd h List.not_mem_nil⟩
  | cons a as ih =>
    obtain ⟨ha, has⟩ := List.forall_mem_cons.mp h
    rw [travelsDark_cons, List.forall_mem_cons, ih ((laser_perform ha).trans on) has, on]
    simp

end Machine

/-! ## Passes -/

section Passes

variable (d : Dialect) (value : String → ν)

theorem isSwitch_of_mem_cuts {points : List (Point Float)} {a : Action ν}
    (h : a ∈ actions d value (points.map cutTo)) : a.isSwitch = false := by
  rw [actions, List.map_map] at h
  obtain ⟨p, -, rfl⟩ := List.mem_map.mp h
  rfl

theorem isSwitch_of_mem_first_cuts {feed : Float} {points : List (Point Float)} {a : Action ν}
    (h : a ∈ actions d value (withFeed feed (points.map cutTo))) : a.isSwitch = false := by
  rcases points with _ | ⟨p, points⟩
  · exact absurd h List.not_mem_nil
  · rcases List.mem_cons.mp h with rfl | h
    · rfl
    · exact isSwitch_of_mem_cuts d value h

variable [Add ν] {m : Machine ν}

theorem laser_run_moves (on : m.laser = true) (tolerance : Float) (curves : List (Curve Float)) :
    ∀ previous, (m.run (actions d value (moves tolerance previous curves))).laser = true := by
  induction curves generalizing m with
  | nil => exact fun _ => on
  | cons curve rest ih =>
    intro previous
    rw [moves, actions_append, actions_append, Machine.run_append, Machine.run_append]
    refine ih ?_ _
    rw [Machine.laser_run fun a => isSwitch_of_mem_cuts d value]
    split
    · exact on
    · rfl

/-- Whatever was drawn, the laser is still on at the end. -/
theorem laser_run_bodyOf (motion : Motion Float) {curves : List (Curve Float)} (ne : curves ≠ []) :
    (m.run (actions d value (bodyOf motion curves))).laser = true := by
  rcases curves with _ | ⟨curve, rest⟩
  · exact absurd rfl ne
  · rw [bodyOf_cons, actions_append, actions_append, Machine.run_append, Machine.run_append]
    refine laser_run_moves d value ?_ _ _ _
    exact Machine.laser_run fun a => isSwitch_of_mem_first_cuts d value

/-- Passes leave the laser on if they draw anything. -/
theorem laser_run_passesOf (off : m.laser = false) (motion : Motion Float)
    (curves : List (Curve Float)) (count : Nat) :
    (m.run (actions d value (passesOf motion curves count).flatten)).laser = !curves.isEmpty := by
  rcases curves with _ | ⟨curve, rest⟩
  · rw [flatten_passesOf_nil]
    exact off
  · have ne := List.cons_ne_nil curve rest
    obtain ⟨front, passes⟩ := exists_flatten_passesOf motion ne count
    rw [passes, actions_append, Machine.run_append, laser_run_bodyOf d value motion ne]
    rfl

end Passes
end LaserCut.Gcode
