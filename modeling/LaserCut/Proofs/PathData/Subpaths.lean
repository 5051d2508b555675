import LaserCut.Proofs.Binary64.Zero
import LaserCut.Proofs.PathData.Interpretation

/-!
# Subpaths

Path data draws one run of curves for each of its moves. A run begins where its move goes, each of
its curves begins where the one before it ends, and a closing command leaves it ending where it
began.

* `Curve.storedStart`, `Curve.storedFinish`: the ends of a curve as it is stored;
* `Subpath`: a move and the commands before the next one;
* `IsRun`, `Runs`: the curves that a subpath draws, and subpaths in a row;
* `Connected`: what holds of a run at the current point, kept by every command (`Connected.step`);
* `curves_runs`: the curves of path data are runs.

Points meet if they compare equal: an arc that draws nothing may change the sign of a zero. The only
laws needed of comparison are symmetry and transitivity; a point that is no number does not equal
itself, so the ends of the curves have to be numbers.
-/

namespace LaserCut.Curve

variable {α : Type}

/-- The first point of a curve, that of an arc without the map it carries. -/
def storedStart : Curve α → Point α
  | .line p _ | .quadratic p _ _ | .cubic p _ _ _ => p
  | .arc a => a.start

/-- The last point of a curve, that of an arc without the map it carries. -/
def storedFinish : Curve α → Point α
  | .line _ p | .quadratic _ _ p | .cubic _ _ _ p => p
  | .arc a => a.finish

end LaserCut.Curve

namespace LaserCut.PathData

/-! ## Subpaths and their runs -/

/-- A move and the commands up to the next move. -/
structure Subpath (ν : Type) where
  move : Command ν
  rest : List (Command ν)
  isMove : move.segment.verb = .moveTo
  noMove : ∀ c ∈ rest, c.segment.verb ≠ .moveTo

namespace Subpath

variable {ν μ : Type}

def commands (s : Subpath ν) : List (Command ν) := s.move :: s.rest

def map (f : ν → μ) (s : Subpath ν) : Subpath μ where
  move := s.move.map f
  rest := s.rest.map (Command.map f)
  isMove := (Segment.verb_map f _).trans s.isMove
  noMove := List.forall_mem_map.mpr fun c hc h =>
    s.noMove c hc ((Segment.verb_map f _).symm.trans h)

/-- Commands are subpaths in a row, after commands that follow no move. -/
theorem exists_append_flatMap (cs : List (Command ν)) :
    ∃ (lead : List (Command ν)) (subpaths : List (Subpath ν)),
      (∀ c ∈ lead, c.segment.verb ≠ .moveTo) ∧ lead ++ subpaths.flatMap commands = cs := by
  induction cs with
  | nil => exact ⟨[], [], List.forall_mem_nil _, rfl⟩
  | cons c cs ih =>
    obtain ⟨lead, subpaths, noMove, rfl⟩ := ih
    by_cases move : c.segment.verb = .moveTo
    · exact ⟨[], ⟨c, lead, move, noMove⟩ :: subpaths, List.forall_mem_nil _, rfl⟩
    · exact ⟨c :: lead, subpaths, List.forall_mem_cons.mpr ⟨move, noMove⟩, rfl⟩

/-- Commands of which the first is a move are subpaths in a row. -/
theorem exists_flatMap {cs : List (Command ν)} (first : ∀ c ∈ cs.head?, c.segment.verb = .moveTo) :
    ∃ subpaths : List (Subpath ν), subpaths.flatMap commands = cs := by
  obtain ⟨lead, subpaths, noMove, rfl⟩ := exists_append_flatMap cs
  cases lead with
  | nil => exact ⟨subpaths, rfl⟩
  | cons c lead => exact absurd (first c rfl) (noMove c List.mem_cons_self)

theorem flatMap_map (f : ν → μ) (subpaths : List (Subpath ν)) :
    (subpaths.map (map f)).flatMap commands = (subpaths.flatMap commands).map (Command.map f) := by
  rw [List.flatMap_map, List.map_flatMap]
  rfl

end Subpath

section Runs

variable {α : Type} [Scalar α]

/-- The curves that a subpath draws after the commands `before`, the latest first. -/
structure IsRun (before : List (Command α)) (s : Subpath α) (run : List (Curve α)) : Prop where
  drawn : run = interpretation before s.commands
  start : ∀ c ∈ run.head?, c.storedStart.same (position (s.move :: before)) = true
  connected : run.IsChain fun c next => next.storedStart.same c.storedFinish = true
  /-- The last curve at a closing command, which is the one that closes if there is one. -/
  closed : ∀ done relative later, s.rest = done ++ ⟨relative, .close⟩ :: later →
    ∀ c ∈ (interpretation before (s.move :: (done ++ [⟨relative, .close⟩]))).getLast?,
      c.storedFinish.same (position (s.move :: before)) = true

/-- The runs of subpaths in a row, one for each. -/
inductive Runs : List (Command α) → List (Subpath α) → List (List (Curve α)) → Prop
  | nil {before : List (Command α)} : Runs before [] []
  | cons {before : List (Command α)} {s : Subpath α} {subpaths : List (Subpath α)}
    {run : List (Curve α)} {runs : List (List (Curve α))} :
    IsRun before s run → Runs (s.commands.reverse ++ before) subpaths runs →
      Runs before (s :: subpaths) (run :: runs)

end Runs

/-! ## What commands draw -/

section Drawn

variable {α : Type} [Scalar α] {before : List (Command α)} {c : Command α} {k : Curve α}

theorem interpretation_append (before xs ys : List (Command α)) :
    interpretation before (xs ++ ys) =
      interpretation before xs ++ interpretation (xs.reverse ++ before) ys := by
  induction xs generalizing before with
  | nil => rfl
  | cons c xs ih =>
    rw [List.cons_append, interpretation, interpretation, ih, List.reverse_cons, List.append_assoc,
      List.append_assoc]
    rfl

/-- An arc is stored with the ends it is given. -/
theorem ends_of_ofArc? {start finish : Point α} {shape : Arc.Shape α}
    (h : Curve.ofArc? start finish shape = some k) :
    k.storedStart = start ∧ k.storedFinish = finish := by
  unfold Curve.ofArc? at h
  split at h
  · cases h
  · split at h <;> obtain rfl := Option.some.inj h <;> exact ⟨rfl, rfl⟩

theorem same_of_ofArc? {start finish : Point α} {shape : Arc.Shape α}
    (h : Curve.ofArc? start finish shape = none) : start.same finish = true := by
  unfold Curve.ofArc? at h
  split at h
  · assumption
  · split at h <;> cases h

/-- A curve leads from the current point before its command to the one after it. -/
theorem ends_of_drawn (h : drawn before c = some k) :
    k.storedStart = position before ∧ k.storedFinish = position (c :: before) := by
  obtain ⟨relative, segment⟩ := c
  unfold drawn at h
  cases segment with
  | moveTo => cases h
  | arc => exact ends_of_ofArc? h
  | close =>
    dsimp only at h
    split at h
    · cases h
    · obtain rfl := Option.some.inj h
      exact ⟨rfl, rfl⟩
  | _ =>
    obtain rfl := Option.some.inj h
    exact ⟨rfl, rfl⟩

/-- A command that draws nothing, unless it is a move, stays where it is. -/
theorem same_of_drawn (noMove : c.segment.verb ≠ .moveTo) (h : drawn before c = none) :
    (position before).same (position (c :: before)) = true := by
  obtain ⟨relative, segment⟩ := c
  unfold drawn at h
  cases segment with
  | moveTo => exact absurd rfl noMove
  | arc => exact same_of_ofArc? h
  | close =>
    dsimp only at h
    split at h
    · assumption
    · cases h
  | _ => cases h

theorem drawn_eq_none (move : c.segment.verb = .moveTo) : drawn before c = none := by
  obtain ⟨relative, segment⟩ := c
  cases segment <;> first | rfl | cases move

/-- The subpath begins where its move goes, whatever else was drawn since. -/
theorem subpathOrigin_of_noMove {move : Command α} (isMove : move.segment.verb = .moveTo)
    {since : List (Command α)} (noMove : ∀ c ∈ since, c.segment.verb ≠ .moveTo) :
    subpathOrigin (since ++ move :: before) = position (move :: before) := by
  induction since with
  | nil =>
    obtain ⟨relative, segment⟩ := move
    cases segment <;> first | rfl | cases isMove
  | cons c since ih =>
    obtain ⟨other, rest⟩ := List.forall_mem_cons.mp noMove
    rw [← ih rest]
    obtain ⟨relative, segment⟩ := c
    cases segment <;> first | rfl | exact absurd rfl other

end Drawn

/-! ## Connected runs -/

section Connected

variable {α : Type} [Scalar α] {m p q : Point α} {run : List (Curve α)}

/-- Both ends of a curve are numbers, which equal themselves. -/
def HasNumericEnds (c : Curve α) : Prop :=
  c.storedStart.same c.storedStart = true ∧ c.storedFinish.same c.storedFinish = true

/-- Where a run that begins at `m` has got to. -/
def reached (m : Point α) (run : List (Curve α)) : Point α :=
  (run.getLast?.map Curve.storedFinish).getD m

omit [Scalar α] in
theorem reached_append_singleton (m : Point α) (run : List (Curve α)) (k : Curve α) :
    reached m (run ++ [k]) = k.storedFinish := by
  rw [reached, List.getLast?_concat]
  rfl

omit [Scalar α] in
theorem reached_of_getLast? {k : Curve α} (h : run.getLast? = some k) :
    reached m run = k.storedFinish := by
  rw [reached, h]
  rfl

/-- A run from `m` on, when the current point is `p`. -/
structure Connected (m p : Point α) (run : List (Curve α)) : Prop where
  start : ∀ c ∈ run.head?, c.storedStart.same m = true
  connected : run.IsChain fun c next => next.storedStart.same c.storedFinish = true
  /-- The current point may be one that is no number. -/
  current : p = reached m run ∨ p.same (reached m run) = true

theorem Connected.nil (m : Point α) : Connected m m [] :=
  ⟨nofun, List.isChain_nil, .inl rfl⟩

/-- A curve from the current point on. -/
theorem Connected.draw (h : Connected m p run) {k : Curve α} (from_current : k.storedStart = p)
    (numeric : HasNumericEnds k) : Connected m k.storedFinish (run ++ [k]) := by
  have joins : k.storedStart.same (reached m run) = true := by
    rcases h.current with rfl | equal
    · rw [← from_current]
      exact numeric.1
    · rw [from_current]
      exact equal
  refine ⟨?_, ?_, .inl (reached_append_singleton m run k).symm⟩
  · cases run with
    | nil =>
      rintro c ⟨⟩
      exact joins
    | cons c run => exact h.start
  · refine List.isChain_append.mpr ⟨h.connected, List.isChain_singleton k, ?_⟩
    rintro c last next ⟨⟩
    rw [← reached_of_getLast? (m := m) last]
    exact joins

variable [PartialEquivBEq α]

theorem same_symm (h : p.same q = true) : q.same p = true := by
  obtain ⟨x, y⟩ := Bool.and_eq_true_iff.mp h
  exact Bool.and_eq_true_iff.mpr ⟨PartialEquivBEq.symm x, PartialEquivBEq.symm y⟩

theorem same_trans (first : m.same p = true) (second : p.same q = true) : m.same q = true := by
  obtain ⟨x, y⟩ := Bool.and_eq_true_iff.mp first
  obtain ⟨x', y'⟩ := Bool.and_eq_true_iff.mp second
  exact Bool.and_eq_true_iff.mpr ⟨PartialEquivBEq.trans x x', PartialEquivBEq.trans y y'⟩

/-- Nothing is drawn, and the current point moves to an equal one. -/
theorem Connected.stay (h : Connected m p run) (equal : p.same q = true) : Connected m q run := by
  refine ⟨h.start, h.connected, .inr ?_⟩
  rcases h.current with rfl | reaches
  · exact same_symm equal
  · exact same_trans (same_symm equal) reaches

/-- Every command but a move keeps a run connected. -/
theorem Connected.step {before : List (Command α)} (h : Connected m (position before) run)
    {c : Command α} (noMove : c.segment.verb ≠ .moveTo)
    (numeric : ∀ k ∈ drawn before c, HasNumericEnds k) :
    Connected m (position (c :: before)) (run ++ (drawn before c).toList) := by
  rcases hd : drawn before c with _ | k
  · rw [Option.toList_none, List.append_nil]
    exact h.stay (same_of_drawn noMove hd)
  · obtain ⟨start, finish⟩ := ends_of_drawn hd
    rw [← finish]
    exact h.draw start (numeric k hd)

/-- The commands after a move draw a connected run. -/
theorem connected_interpretation {before commands : List (Command α)}
    (h : Connected m (position before) run)
    (noMove : ∀ c ∈ commands, c.segment.verb ≠ .moveTo)
    (numeric : ∀ k ∈ interpretation before commands, HasNumericEnds k) :
    Connected m (position (commands.reverse ++ before))
      (run ++ interpretation before commands) := by
  induction commands generalizing before run with
  | nil =>
    rw [interpretation, List.append_nil]
    exact h
  | cons c commands ih =>
    obtain ⟨head, tail⟩ := List.forall_mem_cons.mp noMove
    rw [interpretation, List.forall_mem_append] at numeric
    have next := h.step head fun k hk => numeric.1 k (Option.mem_toList.mpr hk)
    rw [List.reverse_cons, List.append_assoc, interpretation, ← List.append_assoc run]
    exact ih next tail numeric.2

/-- A run that has come back to its first point ends there. -/
theorem Connected.closed (h : Connected m m run) (numeric : ∀ k ∈ run, HasNumericEnds k)
    {k : Curve α} (last : run.getLast? = some k) : k.storedFinish.same m = true := by
  rcases reached_of_getLast? (m := m) last ▸ h.current with equal | equal
  · rw [equal]
    exact (numeric k (List.mem_of_getLast? last)).2
  · exact same_symm equal

end Connected

/-! ## Runs -/

section Split

variable {α : Type} [Scalar α] [PartialEquivBEq α]

/-- A closing command leaves what was drawn since the move ending where that move went. -/
theorem same_of_close {before done : List (Command α)} {move : Command α} {relative : Bool}
    {k : Curve α} (isMove : move.segment.verb = .moveTo)
    (noMove : ∀ c ∈ done, c.segment.verb ≠ .moveTo)
    (numeric : ∀ k ∈ interpretation (move :: before) (done ++ [⟨relative, .close⟩]),
      HasNumericEnds k)
    (last : (interpretation (move :: before) (done ++ [⟨relative, .close⟩])).getLast? = some k) :
    k.storedFinish.same (position (move :: before)) = true := by
  have until_close : ∀ c ∈ done ++ [(⟨relative, .close⟩ : Command α)], c.segment.verb ≠ .moveTo :=
    List.forall_mem_append.mpr ⟨noMove, List.forall_mem_singleton.mpr nofun⟩
  have back := connected_interpretation (.nil (position (move :: before))) until_close numeric
  have home : position ((done ++ [(⟨relative, .close⟩ : Command α)]).reverse ++ move :: before) =
      position (move :: before) := by
    rw [List.reverse_append]
    exact subpathOrigin_of_noMove isMove fun c hc => noMove c (List.mem_reverse.mp hc)
  rw [home] at back
  exact back.closed numeric last

/-- What a subpath draws is a run. -/
theorem isRun_interpretation {before : List (Command α)} (s : Subpath α)
    (numeric : ∀ k ∈ interpretation before s.commands, HasNumericEnds k) :
    IsRun before s (interpretation before s.commands) := by
  have after_move (rest : List (Command α)) :
      interpretation before (s.move :: rest) = interpretation (s.move :: before) rest := by
    rw [interpretation, drawn_eq_none s.isMove]
    rfl
  have run := numeric
  rw [Subpath.commands, after_move] at run
  have whole := connected_interpretation (.nil _) s.noMove run
  refine ⟨rfl, ?_, ?_, ?_⟩
  · rw [Subpath.commands, after_move]
    exact whole.start
  · rw [Subpath.commands, after_move]
    exact whole.connected
  · intro done relative later split k last
    rw [after_move] at last
    have noMove := s.noMove
    rw [split] at noMove run
    rw [List.append_cons, interpretation_append] at run
    exact same_of_close s.isMove (List.forall_mem_append.mp noMove).1
      (List.forall_mem_append.mp run).1 last

theorem exists_runs (before : List (Command α)) (subpaths : List (Subpath α))
    (numeric : ∀ k ∈ interpretation before (subpaths.flatMap Subpath.commands), HasNumericEnds k) :
    ∃ runs, Runs before subpaths runs ∧
      runs.flatten = interpretation before (subpaths.flatMap Subpath.commands) := by
  induction subpaths generalizing before with
  | nil => exact ⟨[], .nil, rfl⟩
  | cons s subpaths ih =>
    rw [List.flatMap_cons, interpretation_append] at numeric ⊢
    obtain ⟨first, rest⟩ := List.forall_mem_append.mp numeric
    obtain ⟨runs, each, all⟩ := ih _ rest
    exact ⟨_ :: runs, .cons (isRun_interpretation s first) each, by rw [List.flatten_cons, all]⟩

end Split

/-- The first command that a text spells is a move. -/
theorem moveTo_of_spells {commands : List (Command Literal)} {cs : List Char}
    (h : Spells none commands cs) : ∀ c ∈ commands.head?, c.segment.verb = .moveTo := by
  rintro c first
  cases h with
  | nil => cases first
  | cons spelled _ =>
    obtain rfl := Option.some.inj first
    cases spelled with
    | letter _ isMove _ => exact isMove rfl
    | repeated previous => cases previous

theorem hasNumericEnds_of_isFinite {c : Curve Float} (start : c.storedStart.IsFinite)
    (finish : c.storedFinish.IsFinite) : HasNumericEnds c := by
  have numeric {p : Point Float} (finite : p.IsFinite) : p.same p = true :=
    Bool.and_eq_true_iff.mpr ⟨Binary64.beq_self (Binary64.isNaN_of_isFinite finite.1),
      Binary64.beq_self (Binary64.isNaN_of_isFinite finite.2)⟩
  exact ⟨numeric start, numeric finish⟩

/-- The curves of path data, if they begin and end at finite points, are runs, one for each move. -/
theorem curves_runs {d : String} {cs : List (Curve Float)} (h : curves d = .ok cs)
    (finite : ∀ c ∈ cs, c.storedStart.IsFinite ∧ c.storedFinish.IsFinite) :
    ∃ (subpaths : List (Subpath Literal)) (runs : List (List (Curve Float))),
      Spells none (subpaths.flatMap Subpath.commands) d.toList ∧
      Runs [] (subpaths.map (Subpath.map Scalar.ofLiteral)) runs ∧ runs.flatten = cs := by
  obtain ⟨commands, spelled, rfl⟩ := (curves_eq_ok_iff d cs).1.mp h
  obtain ⟨subpaths, rfl⟩ := Subpath.exists_flatMap (moveTo_of_spells spelled)
  rw [← Subpath.flatMap_map] at finite ⊢
  obtain ⟨runs, each, all⟩ := exists_runs [] (subpaths.map (Subpath.map Scalar.ofLiteral))
    fun k hk => hasNumericEnds_of_isFinite (finite k hk).1 (finite k hk).2
  exact ⟨subpaths, runs, spelled, each, all⟩

/-- Drawing on after a closing command, a run that is empty but for an arc that draws nothing and
closing commands, and a run of its own. -/
def closedRuns : String := "M0,0L10,0 10,10zl5,0M7,7a1,1,0,0,0,0,0zzm1,1h-1v-1Z"

theorem curves_runs_closed :
    ∃ (cs : List (Curve Float)) (subpaths : List (Subpath Literal))
      (runs : List (List (Curve Float))), curves closedRuns = .ok cs ∧
      Spells none (subpaths.flatMap Subpath.commands) closedRuns.toList ∧
      Runs [] (subpaths.map (Subpath.map Scalar.ofLiteral)) runs ∧ runs.flatten = cs := by
  have finite : (curves closedRuns : Except PathError (List (Curve Float))).toOption.map
      (·.all fun c => c.storedStart.x.isFinite && c.storedStart.y.isFinite &&
        (c.storedFinish.x.isFinite && c.storedFinish.y.isFinite)) = some true := by
    decide +kernel
  obtain ⟨cs, drawn, finite⟩ := Option.map_eq_some_iff.mp finite
  have drawn := Outcome.toOption_eq_some_iff.mp drawn
  have finite : ∀ c ∈ cs, c.storedStart.IsFinite ∧ c.storedFinish.IsFinite := fun c hc => by
    have ends := List.all_eq_true.mp finite c hc
    simp only [Bool.and_eq_true] at ends
    exact ends
  obtain ⟨subpaths, runs, all⟩ := curves_runs drawn finite
  exact ⟨cs, subpaths, runs, drawn, all⟩

end LaserCut.PathData
