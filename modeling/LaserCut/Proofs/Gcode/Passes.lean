import LaserCut.Proofs.Gcode.Body
import LaserCut.Proofs.Gcode.Reading

/-!
# The passes of a program

What stands between header and footer, stated without a controller: the body, and again after each
step down (`passesOf`). A compiler that has drawn curves writes these passes, without the lines that
are empty (`Compiler.program_eq_filter`).
-/

namespace LaserCut.Gcode

section Reference

variable {α : Type} [Scalar α]

/-- The tool off and, if passes go down, the head down by a step. -/
def descent (motion : Motion α) (step : α) : List (Instruction α) :=
  .toolOff ::
    if 0 < motion.passDepth then [.relative, .cut none (.height (-step)), .absolute] else []

/-- The instructions of each pass. Without curves there are none. -/
def passesOf (motion : Motion α) (curves : List (Curve α)) (count : Nat) :
    List (List (Instruction α)) :=
  if curves.isEmpty then List.replicate count []
  else
    bodyOf motion curves ::
      (passSteps motion count).map fun step => descent motion step ++ bodyOf motion curves

theorem length_passesOf (motion : Motion α) (curves : List (Curve α)) {count : Nat}
    (h : 1 ≤ count) : (passesOf motion curves count).length = count := by
  rw [passesOf]
  split
  · exact List.length_replicate
  · rw [List.length_cons, List.length_map, passSteps, List.length_map, List.length_range]
    omega

theorem flatten_passesOf_nil (motion : Motion α) (count : Nat) :
    (passesOf motion [] count).flatten = [] :=
  List.flatten_eq_nil_iff.mpr fun _ h => List.eq_of_mem_replicate h

end Reference

/-! ## Instructions of a body -/

/-- A switch of the laser or a move in the plane. -/
def Instruction.isPlanar {α : Type} : Instruction α → Bool
  | .toolOff | .toolOn _ => true
  | .rapid words | .cut _ words => words.z.isNone
  | _ => false

theorem Instruction.isMotion_of_isPlanar {α : Type} {i : Instruction α} (h : i.isPlanar = true) :
    i.isMotion = true := by
  cases i with
  | rapid | cut | toolOff | toolOn => rfl
  | _ => cases h

/-- With proper tool lines no switch and no move is left out. -/
theorem Dialect.isSilent_of_isMotion {α : Type} {d : Dialect} {tool : ToolCommands}
    (proper : tool.Proper) (hd : d.tool = some tool) {i : Instruction α} (hi : i.isMotion = true) :
    d.isSilent i = false := by
  cases i with
  | toolOff =>
    rw [isSilent, hd, Option.any_some, ← Bool.not_eq_true, String.isEmpty_iff]
    exact proper.off_ne_empty
  | toolOn power =>
    rw [isSilent, hd, Option.any_some, ← Bool.not_eq_true, String.isEmpty_iff]
    exact proper.on_ne_empty
  | verbatim line => cases hi
  | _ => rfl

section Planar

variable {α : Type}

theorem isPlanar_withFeed (feed : α) {is : List (Instruction α)}
    (h : ∀ i ∈ is, i.isPlanar = true) : ∀ i ∈ withFeed feed is, i.isPlanar = true := by
  induction is with
  | nil => exact h
  | cons i is ih =>
    obtain ⟨hi, his⟩ := List.forall_mem_cons.mp h
    cases i with
    | cut f words => exact List.forall_mem_cons.mpr ⟨hi, his⟩
    | _ => exact List.forall_mem_cons.mpr ⟨hi, ih his⟩

variable [Scalar α]

/-- The moves of curves are those of a travel and cuts. -/
theorem mem_moves {tolerance : α} {curves : List (Curve α)} {previous : Option (Curve α)}
    {i : Instruction α} (h : i ∈ moves tolerance previous curves) :
    (∃ start, i ∈ travel start) ∨ ∃ p, i = cutTo p := by
  induction curves generalizing previous with
  | nil => cases h
  | cons curve rest ih =>
    rw [moves, List.mem_append, List.mem_append] at h
    rcases h with (h | h) | h
    · split at h
      · cases h
      · exact .inl ⟨_, h⟩
    · obtain ⟨p, -, rfl⟩ := List.mem_map.mp h
      exact .inr ⟨p, rfl⟩
    · exact ih h

theorem mem_travel {start : Point α} {i : Instruction α} (h : i ∈ travel start) :
    i = .toolOff ∨ i = .rapid (.plane start.x start.y) ∨ i = .toolOn 1 := by
  simpa [travel] using h

theorem isPlanar_moves (tolerance : α) (curves : List (Curve α)) (previous : Option (Curve α)) :
    ∀ i ∈ moves tolerance previous curves, i.isPlanar = true := by
  intro i hi
  rcases mem_moves hi with ⟨start, hi⟩ | ⟨p, rfl⟩
  · rcases mem_travel hi with rfl | rfl | rfl <;> rfl
  · rfl

theorem isPlanar_bodyOf (motion : Motion α) (curves : List (Curve α)) :
    ∀ i ∈ bodyOf motion curves, i.isPlanar = true :=
  isPlanar_withFeed _ (isPlanar_moves _ curves none)

theorem isMotion_descent (motion : Motion α) (step : α) :
    ∀ i ∈ descent motion step, i.isMotion = true := by
  rw [descent]
  split <;> simp [Instruction.isMotion]

theorem isMotion_passesOf (motion : Motion α) (curves : List (Curve α)) (count : Nat) :
    ∀ pass ∈ passesOf motion curves count, ∀ i ∈ pass, i.isMotion = true := by
  have body := fun i hi => Instruction.isMotion_of_isPlanar (isPlanar_bodyOf motion curves i hi)
  intro pass hp i hi
  rw [passesOf] at hp
  split at hp
  · rw [List.eq_of_mem_replicate hp] at hi
    cases hi
  · rcases List.mem_cons.mp hp with rfl | hp
    · exact body i hi
    · obtain ⟨step, -, rfl⟩ := List.mem_map.mp hp
      rcases List.mem_append.mp hi with hi | hi
      · exact isMotion_descent motion step i hi
      · exact body i hi

/-- Every curve has moves, and moves are never left out. -/
theorem filter_bodyOf_ne_nil (d : Dialect) (motion : Motion α) {curves : List (Curve α)}
    (h : curves ≠ []) : (bodyOf motion curves).filter (!d.isSilent ·) ≠ [] := by
  rcases curves with _ | ⟨curve, rest⟩
  · exact absurd rfl h
  · have travels : .rapid (.plane curve.start.x curve.start.y) ∈ bodyOf motion (curve :: rest) :=
      .tail _ (.head _)
    exact List.ne_nil_of_mem (List.mem_filter.mpr ⟨travels, rfl⟩)

end Planar

/-! ## Descents of the controller -/

section Repeat

variable {α : Type} [Scalar α]

/-- Between passes the controller keeps its state. -/
theorem perform_betweenPasses {motion : Motion α}
    (hs : (motion.cuttingSpeed == motion.cuttingSpeed) = true) (last : Curve α) (step : α) :
    (Controller.after motion (some last)).perform (betweenPasses motion step) =
      .ok (descent motion step, .after motion (some last)) := by
  let c := Controller.after motion (some last)
  have off : c.handle .toolOff = (.ok (some .toolOff), c) := rfl
  have relative : c.handle .relative = (.ok (some .relative), c) := rfl
  have absolute : c.handle .absolute = (.ok (some .absolute), c) := rfl
  have down : c.handle (.move (.height (-step))) =
      (.ok (some (.cut none (.height (-step)))), c) := by
    simp only [c, Controller.handle, Controller.move, Controller.after, AxisWords.isEmpty,
      AxisWords.height, Controller.moved, hasFeed_self hs]
    rfl
  rw [betweenPasses, descent, perform_cons off]
  split
  · rw [perform_cons relative, perform_cons down, perform_cons absolute]
    rfl
  · rfl

theorem Compiler.repeatBody_eq (c : Compiler α)
    (hs : (c.motion.cuttingSpeed == c.motion.cuttingSpeed) = true) (last : Curve α)
    (steps : List α) :
    c.repeatBody (.after c.motion (some last)) steps =
      .ok (c.body ++ (steps.map fun step => descent c.motion step ++ c.body).flatten,
        .after c.motion (some last)) := by
  induction steps with
  | nil =>
    rw [List.map_nil, List.flatten_nil, List.append_nil]
    rfl
  | cons step steps ih =>
    rw [repeatBody, perform_betweenPasses hs]
    show (c.repeatBody (.after c.motion (some last)) steps >>= fun written =>
      Except.ok (c.body ++ descent c.motion step ++ written.1, written.2)) = _
    rw [ih]
    simp only [List.map_cons, List.flatten_cons, List.append_assoc]
    rfl

/-- So many copies of a body, with a step down between each two. An empty body is not repeated. -/
def rounds (motion : Motion α) (body : List (Instruction α)) : Nat → List (List (Instruction α))
  | 0 => []
  | n + 1 =>
    if body.isEmpty then []
    else body :: (passSteps motion (n + 1)).map fun step => descent motion step ++ body

theorem length_rounds (motion : Motion α) {body : List (Instruction α)} (h : body ≠ []) (n : Nat) :
    (rounds motion body n).length = n := by
  rcases n with _ | n
  · rfl
  · rw [rounds, if_neg (mt List.isEmpty_iff.mp h), List.length_cons, List.length_map, passSteps,
      List.length_map, List.length_range, Nat.add_sub_cancel]

/-- A compiler that has drawn curves repeats its body and keeps its state. -/
theorem Compiler.passes_eq_rounds {c : Compiler α}
    (hs : (c.motion.cuttingSpeed == c.motion.cuttingSpeed) = true) {curves : List (Curve α)}
    (hb : c.body = (bodyOf c.motion curves).filter (!c.dialect.isSilent ·))
    (hd : c.controller = .after c.motion curves.getLast?) (count : Nat) :
    c.passes count = .ok ((rounds c.motion c.body count).flatten, c.controller) := by
  rcases count with _ | n
  · rw [passes, beq_self_eq_true, Bool.or_true, if_pos rfl]
    rfl
  rcases List.eq_nil_or_concat curves with rfl | ⟨front, last, rfl⟩
  · rw [passes, rounds, hb]
    rfl
  · rw [List.concat_eq_append] at hb hd
    have body : c.body.isEmpty = false := by
      rw [hb, List.isEmpty_eq_false_iff]
      exact filter_bodyOf_ne_nil c.dialect c.motion (List.concat_ne_nil last front)
    rw [List.getLast?_concat] at hd
    rw [passes, rounds, body, if_neg (by simp), if_neg Bool.false_ne_true, hd, c.repeatBody_eq hs,
      List.flatten_cons]

/-- A compiler that has drawn curves without their empty lines writes the passes without these. -/
theorem Compiler.passes_eq {c : Compiler α}
    (hs : (c.motion.cuttingSpeed == c.motion.cuttingSpeed) = true) {curves : List (Curve α)}
    (hb : c.body = (bodyOf c.motion curves).filter (!c.dialect.isSilent ·))
    (hd : c.controller = .after c.motion curves.getLast?) {count : Nat} (hc : 1 ≤ count) :
    ∃ middle, c.passes count = .ok (middle, c.controller) ∧
      middle.filter (!c.dialect.isSilent ·) =
        (passesOf c.motion curves count).flatten.filter (!c.dialect.isSilent ·) := by
  refine ⟨_, passes_eq_rounds hs hb hd count, ?_⟩
  rcases count with _ | n
  · omega
  rcases curves with _ | ⟨curve, rest⟩
  · rw [flatten_passesOf_nil, rounds, hb]
    rfl
  · have body : c.body.isEmpty = false := by
      rw [hb, List.isEmpty_eq_false_iff]
      exact filter_bodyOf_ne_nil c.dialect c.motion (List.cons_ne_nil curve rest)
    rw [rounds, body, if_neg Bool.false_ne_true, passesOf, List.isEmpty_cons,
      if_neg Bool.false_ne_true, List.flatten_cons, List.flatten_cons, hb]
    simp [List.filter_append, List.filter_flatten, List.filter_filter, Function.comp_def]

/-- A fresh compiler writes the passes for curves between its header and its footer, without the
lines that are empty. -/
theorem Compiler.program_eq_filter (h0 : (0 : α) ≤ 1) (h1 : (1 : α) ≤ 1) {motion : Motion α}
    (hs : (motion.cuttingSpeed == motion.cuttingSpeed) = true) (dialect : Dialect)
    (header footer : List (Instruction α)) (curves : List (Curve α)) {count : Nat}
    (hc : 1 ≤ count) :
    ∃ c d, (new dialect motion header footer).appendAll curves = .ok c ∧
      c.program count = .ok ((header ++ (passesOf motion curves count).flatten ++ footer).filter
        (!dialect.isSilent ·), d) := by
  let c : Compiler α := ⟨dialect, motion, header, footer, .after motion curves.getLast?,
    (bodyOf motion curves).filter (!dialect.isSilent ·)⟩
  obtain ⟨middle, written, kept⟩ := passes_eq hs (c := c) rfl rfl hc
  refine ⟨c, c, appendAll_new h0 h1 hs dialect header footer curves, ?_⟩
  rw [program, written]
  show Except.ok ((header ++ middle ++ footer).filter _, c) = _
  rw [List.filter_append, List.filter_append, kept, ← List.filter_append, ← List.filter_append]

end Repeat

end LaserCut.Gcode
