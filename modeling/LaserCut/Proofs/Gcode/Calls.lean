import LaserCut.Proofs.Gcode.Passes

/-!
# A compiler under calls in any order

What a compiler gives when curves are appended and programs are asked for in any order.

* `Controller.exists_perform_iff`: requests are granted if and only if a speed is set before the
  first move and the power of the tool is a fraction;
* `Compiler.answers`: what each of a list of calls gives;
* `Compiler.Ready.exists_appendAll`, `Compiler.Ready.exists_program`: neither curves nor programs
  are refused, whatever the settings are. A compiler that has drawn anything has set a speed;
* `Compiler.answers_new`: programs leave no trace. A compiler that was asked for programs in between
  is the one that was given the same curves at once.
-/

namespace LaserCut.Gcode

/-! ## Requests that are granted -/

section Granted

variable {α : Type}

namespace Request

/-- The request sets a speed for the moves after it. -/
def setsSpeed : Request α → Bool
  | .travelAt _ | .cutAt _ => true
  | _ => false

variable [Scalar α]

/-- The request can be granted with a speed that is set or, if not `ready`, without. -/
def IsGranted (ready : Bool) : Request α → Prop
  | .move _ => ready = true
  | .toolOn power => 0 ≤ power ∧ power ≤ 1
  | _ => True

/-- All requests can be granted in order. -/
def AreGranted : (ready : Bool) → List (Request α) → Prop
  | _, [] => True
  | ready, r :: rs => r.IsGranted ready ∧ AreGranted (ready || r.setsSpeed) rs

theorem areGranted_append {ready : Bool} {as bs : List (Request α)} :
    AreGranted ready (as ++ bs) ↔
      AreGranted ready as ∧ AreGranted (ready || as.any setsSpeed) bs := by
  induction as generalizing ready with
  | nil =>
    rw [List.nil_append, List.any_nil, Bool.or_false]
    exact (and_iff_right trivial).symm
  | cons a as ih =>
    rw [List.cons_append, AreGranted, AreGranted, ih, List.any_cons, Bool.or_assoc, and_assoc]

end Request

namespace Controller

variable [Scalar α]

theorem exists_handle_iff (c : Controller α) (r : Request α) :
    (∃ i d, c.handle r = (.ok i, d)) ↔ r.IsGranted c.speed.isSome := by
  cases r with
  | move words =>
    rcases c with ⟨position, _ | speed, feed, travelling⟩
    · refine iff_of_false ?_ Bool.false_ne_true
      rintro ⟨_, _, granted⟩
      cases granted
    · refine iff_of_true ?_ rfl
      simp only [handle, move]
      repeat' split
      all_goals exact ⟨_, _, rfl⟩
  | toolOn power =>
    rw [handle, Request.IsGranted]
    split
    · exact iff_of_true ⟨_, _, rfl⟩ ‹_›
    · refine iff_of_false ?_ ‹_›
      rintro ⟨_, _, granted⟩
      cases granted
  | _ => exact iff_of_true ⟨_, _, rfl⟩ trivial

/-- A speed that is set stays set. -/
theorem isSome_speed_handle (c : Controller α) (r : Request α) :
    (c.handle r).2.speed.isSome = (c.speed.isSome || r.setsSpeed) := by
  cases r with
  | travelAt speed | cutAt speed => exact (Bool.or_true _).symm
  | move words =>
    show (c.move words).2.speed.isSome = (c.speed.isSome || false)
    rw [Bool.or_false, move]
    repeat' split
    all_goals rfl
  | toolOn power =>
    show (c.handle (.toolOn power)).2.speed.isSome = (c.speed.isSome || false)
    rw [Bool.or_false, handle]
    split <;> rfl
  | _ => exact (Bool.or_false _).symm

theorem exists_perform_iff (c : Controller α) (rs : List (Request α)) :
    (∃ is d, c.perform rs = .ok (is, d)) ↔ Request.AreGranted c.speed.isSome rs := by
  induction rs generalizing c with
  | nil => exact iff_of_true ⟨_, _, rfl⟩ trivial
  | cons r rs ih =>
    have speed := isSome_speed_handle c r
    rw [Request.AreGranted, ← exists_handle_iff, ← speed]
    rcases handled : c.handle r with ⟨e | i, d⟩
    · rw [perform, handled]
      refine iff_of_false ?_ ?_
      · rintro ⟨_, _, performed⟩
        cases performed
      · rintro ⟨⟨_, _, granted⟩, _⟩
        cases granted
    · rw [perform_cons handled, and_iff_right ⟨i, d, rfl⟩, ← ih d]
      constructor
      · rintro ⟨is, f, h⟩
        obtain ⟨⟨js, g⟩, performed, -⟩ := Outcome.map_eq_ok_iff.mp h
        exact ⟨js, g, performed⟩
      · rintro ⟨is, f, performed⟩
        rw [performed]
        exact ⟨_, _, rfl⟩

theorem isSome_speed_of_perform {c d : Controller α} {rs : List (Request α)}
    {is : List (Instruction α)} (h : c.perform rs = .ok (is, d)) :
    d.speed.isSome = (c.speed.isSome || rs.any Request.setsSpeed) := by
  induction rs generalizing c is with
  | nil =>
    cases h
    exact (Bool.or_false _).symm
  | cons r rs ih =>
    have speed := isSome_speed_handle c r
    rw [perform] at h
    split at h
    · cases h
    · rename_i handled
      obtain ⟨⟨js, f⟩, performed, eq⟩ := Outcome.map_eq_ok_iff.mp h
      cases eq
      rw [handled] at speed
      rw [ih performed, speed, List.any_cons, Bool.or_assoc]

/-- With a speed that is set, requests that are granted leave one that is set. -/
theorem exists_perform_of_speed {c : Controller α} (hs : c.speed.isSome = true)
    {rs : List (Request α)} (h : Request.AreGranted true rs) :
    ∃ is d, c.perform rs = .ok (is, d) ∧ d.speed.isSome = true := by
  obtain ⟨is, d, performed⟩ := (exists_perform_iff c rs).mpr (by rw [hs]; exact h)
  exact ⟨is, d, performed, by rw [isSome_speed_of_perform performed, hs, Bool.true_or]⟩

end Controller

end Granted

/-! ## Drawing and passes -/

section Drawing

variable {α : Type} [Scalar α]

open Request (AreGranted areGranted_append setsSpeed)

theorem areGranted_follow (motion : Motion α) (curve : Curve α) :
    AreGranted true (follow motion curve) := by
  rw [follow]
  induction curve.flatten motion.tolerance with
  | nil => trivial
  | cons p points ih => exact ⟨rfl, ih⟩

theorem areGranted_betweenPasses (motion : Motion α) (step : α) :
    AreGranted true (betweenPasses motion step) := by
  rw [betweenPasses]
  split
  · exact ⟨trivial, trivial, rfl, trivial, trivial⟩
  · exact ⟨trivial, trivial⟩

variable (h0 : (0 : α) ≤ 1) (h1 : (1 : α) ≤ 1)

include h0 h1

/-- Whether the head travels first or not, a curve is drawn with a speed that is set, as long as the
position is known only when a speed is set. -/
theorem areGranted_drawing (motion : Motion α) {position : Option (Point α)} {ready : Bool}
    (h : position.isSome = true → ready = true) (curve : Curve α) :
    AreGranted ready (drawing motion position curve) ∧
      (ready || (drawing motion position curve).any setsSpeed) = true := by
  rw [drawing]
  split
  · rename_i connected
    have known : position.isSome = true := by
      rcases position with _ | p
      · cases connected
      · rfl
    rw [h known]
    exact ⟨areGranted_follow motion curve, Bool.true_or _⟩
  · have approached : (approach motion curve.start).any setsSpeed = true := rfl
    rw [areGranted_append, List.any_append, approached, Bool.true_or, Bool.or_true]
    have granted : AreGranted ready (approach motion curve.start) :=
      ⟨trivial, trivial, Bool.or_true _, trivial, ⟨h0, h1⟩, trivial⟩
    exact ⟨⟨granted, areGranted_follow motion curve⟩, rfl⟩

theorem exists_draw_of_speed (motion : Motion α) (curves : List (Curve α)) :
    ∀ {c : Controller α}, c.speed.isSome = true →
      ∃ is d, draw motion c curves = .ok (is, d) ∧ d.speed.isSome = true := by
  induction curves with
  | nil => exact fun hs => ⟨_, _, rfl, hs⟩
  | cons curve rest ih =>
    intro c hs
    have granted : AreGranted true (drawing motion c.position curve) :=
      (areGranted_drawing h0 h1 motion (fun _ => rfl) curve).1
    obtain ⟨is, d, performed, hd⟩ := Controller.exists_perform_of_speed hs granted
    obtain ⟨js, e, drawn, he⟩ := ih hd
    refine ⟨is ++ js, e, ?_, he⟩
    rw [draw_cons, performed]
    show (draw motion d rest).map _ = _
    rw [drawn]
    rfl

/-- A controller whose position is known only when a speed is set draws all curves, and with the
first of them sets a speed. -/
theorem exists_draw {motion : Motion α} {c : Controller α}
    (h : c.position.isSome = true → c.speed.isSome = true) (curves : List (Curve α)) :
    ∃ is d, draw motion c curves = .ok (is, d) ∧
      ((is = [] ∧ d = c) ∨ d.speed.isSome = true) := by
  rcases curves with _ | ⟨curve, rest⟩
  · exact ⟨[], c, rfl, .inl ⟨rfl, rfl⟩⟩
  · obtain ⟨granted, sets⟩ := areGranted_drawing h0 h1 motion h curve
    obtain ⟨is, d, performed⟩ := (Controller.exists_perform_iff c _).mpr granted
    have hd : d.speed.isSome = true := by
      rw [Controller.isSome_speed_of_perform performed, sets]
    obtain ⟨js, e, drawn, he⟩ := exists_draw_of_speed h0 h1 motion rest hd
    refine ⟨is ++ js, e, ?_, .inr he⟩
    rw [draw_cons, performed]
    show (draw motion d rest).map _ = _
    rw [drawn]
    rfl

end Drawing

namespace Compiler

section Ready

variable {α : Type} {c : Compiler α}

/-- A compiler that has moved the head or drawn anything has set a speed. -/
structure Ready (c : Compiler α) : Prop where
  position : c.controller.position.isSome = true → c.controller.speed.isSome = true
  body : c.body ≠ [] → c.controller.speed.isSome = true

theorem Ready.of_speed (h : c.controller.speed.isSome = true) : c.Ready := ⟨fun _ => h, fun _ => h⟩

theorem ready_new (dialect : Dialect) (motion : Motion α) (header footer : List (Instruction α)) :
    (new dialect motion header footer).Ready :=
  ⟨fun known => absurd known Bool.false_ne_true, fun drawn => absurd rfl drawn⟩

variable [Scalar α]

theorem Ready.exists_appendAll (h0 : (0 : α) ≤ 1) (h1 : (1 : α) ≤ 1) (h : c.Ready)
    (curves : List (Curve α)) : ∃ d, c.appendAll curves = .ok d ∧ d.Ready := by
  obtain ⟨is, controller, drawn, nothing | speed⟩ := exists_draw h0 h1 h.position curves
  · obtain ⟨rfl, rfl⟩ := nothing
    refine ⟨{ c with body := c.body ++ [] }, by rw [appendAll, drawn]; rfl, ?_⟩
    rw [List.append_nil]
    exact h
  · exact ⟨_, by rw [appendAll, drawn]; rfl, .of_speed speed⟩

theorem exists_repeatBody (c : Compiler α) (steps : List α) :
    ∀ {d : Controller α}, d.speed.isSome = true →
      ∃ is e, c.repeatBody d steps = .ok (is, e) ∧ e.speed.isSome = true := by
  induction steps with
  | nil => exact fun hd => ⟨_, _, rfl, hd⟩
  | cons step steps ih =>
    intro d hd
    obtain ⟨is, e, performed, he⟩ :=
      Controller.exists_perform_of_speed hd (areGranted_betweenPasses c.motion step)
    obtain ⟨js, f, written, hf⟩ := ih he
    refine ⟨c.body ++ is ++ js, f, ?_, hf⟩
    rw [repeatBody, performed]
    show (c.repeatBody e steps >>= fun rest => Except.ok (c.body ++ is ++ rest.1, rest.2)) = _
    rw [written]
    rfl

theorem Ready.exists_program (h : c.Ready) (count : Nat) :
    ∃ is d, c.program count = .ok (is, d) ∧ d.Ready := by
  rw [program, passes]
  split
  · exact ⟨_, _, rfl, h⟩
  · rename_i drawn
    rw [Bool.or_eq_true, not_or, List.isEmpty_iff] at drawn
    obtain ⟨is, controller, written, speed⟩ :=
      c.exists_repeatBody (passSteps c.motion count) (h.body drawn.1)
    rw [written]
    exact ⟨_, _, rfl, .of_speed speed⟩

end Ready

end Compiler

/-! ## Calls -/

/-- What a compiler may be asked. -/
inductive Call (α : Type)
  | append (curve : Curve α)
  | appendAll (curves : List (Curve α))
  | compile (passes : Nat)

namespace Call

variable {α : Type}

/-- The curves that a call adds. -/
def curves : Call α → List (Curve α)
  | .append curve => [curve]
  | .appendAll curves => curves
  | .compile _ => []

/-- The number of passes of the program that a call asks for. -/
def passes? : Call α → Option Nat
  | .compile passes => some passes
  | _ => none

end Call

namespace Compiler

section Answers

variable {α : Type} [Scalar α]

/-- The program that a call asks for, if it does, and the compiler after the call. -/
def answer (c : Compiler α) :
    Call α → Except (MotionError α) (Option (List (Instruction α)) × Compiler α)
  | .append curve => (c.append curve).map fun d => (none, d)
  | .appendAll curves => (c.appendAll curves).map fun d => (none, d)
  | .compile passes => (c.program passes).map fun (is, d) => (some is, d)

/-- What each of the calls gives in turn. -/
def answers (c : Compiler α) :
    List (Call α) → Except (MotionError α) (List (Option (List (Instruction α)) × Compiler α))
  | [] => .ok []
  | call :: calls => do
    let (program, c) ← c.answer call
    let rest ← c.answers calls
    return (program, c) :: rest

theorem answers_cons {c d : Compiler α} {call : Call α} {program : Option (List (Instruction α))}
    (h : c.answer call = .ok (program, d)) (calls : List (Call α)) :
    c.answers (call :: calls) = (d.answers calls).map ((program, d) :: ·) := by
  rw [answers, h]
  show (d.answers calls >>= fun rest => Except.ok ((program, d) :: rest)) = _
  rcases d.answers calls with e | rest <;> rfl

end Answers

/-! ## Programs leave no trace -/

section Given

variable {α : Type} [Scalar α]

theorem appendAll_append (as bs : List (Curve α)) (c : Compiler α) :
    c.appendAll (as ++ bs) = c.appendAll as >>= (·.appendAll bs) := by
  simp only [← foldlM_append, List.foldlM_append]

variable (dialect : Dialect) (motion : Motion α) (header footer : List (Instruction α))

/-- A fresh compiler that was given curves. -/
def given (curves : List (Curve α)) : Compiler α :=
  ⟨dialect, motion, header, footer, .after motion curves.getLast?,
    (bodyOf motion curves).filter (!dialect.isSilent ·)⟩

/-- The program of a compiler with so many passes. -/
def programOf (c : Compiler α) (count : Nat) : List (Instruction α) :=
  (c.header ++ (rounds c.motion c.body count).flatten ++ c.footer).filter (!c.dialect.isSilent ·)

variable {motion} (hs : (motion.cuttingSpeed == motion.cuttingSpeed) = true)

include hs

/-- A compiler that was given curves writes its program and stays as it is. -/
theorem program_given (curves : List (Curve α)) (count : Nat) :
    (given dialect motion header footer curves).program count =
      .ok ((given dialect motion header footer curves).programOf count,
        given dialect motion header footer curves) := by
  have written := passes_eq_rounds (c := given dialect motion header footer curves) hs rfl rfl count
  rw [program, written]
  rfl

variable (h0 : (0 : α) ≤ 1) (h1 : (1 : α) ≤ 1)

include h0 h1

/-- More curves are drawn as if they had been given with those before. -/
theorem appendAll_given (curves more : List (Curve α)) :
    (given dialect motion header footer curves).appendAll more =
      .ok (given dialect motion header footer (curves ++ more)) := by
  have all := appendAll_new h0 h1 hs dialect header footer (curves ++ more)
  rw [appendAll_append, appendAll_new h0 h1 hs dialect header footer curves] at all
  exact all

theorem answer_given (curves : List (Curve α)) (call : Call α) :
    (given dialect motion header footer curves).answer call =
      .ok (call.passes?.map (given dialect motion header footer (curves ++ call.curves)).programOf,
        given dialect motion header footer (curves ++ call.curves)) := by
  cases call with
  | append curve =>
    rw [answer, append, appendAll_given dialect header footer hs h0 h1]
    rfl
  | appendAll more =>
    rw [answer, appendAll_given dialect header footer hs h0 h1]
    rfl
  | compile count =>
    rw [answer, program_given dialect header footer hs, Call.curves, List.append_nil]
    rfl

/-- After each call the compiler is the one that was given all curves up to then. -/
theorem answers_given (calls : List (Call α)) :
    ∀ curves, ∃ log, (given dialect motion header footer curves).answers calls = .ok log ∧
      log.length = calls.length ∧
      ∀ k call, calls[k]? = some call →
        let c := given dialect motion header footer
          (curves ++ (calls.take (k + 1)).flatMap Call.curves)
        log[k]? = some (call.passes?.map c.programOf, c) := by
  induction calls with
  | nil => exact fun _ => ⟨[], rfl, rfl, fun k call h => by cases h⟩
  | cons first calls ih =>
    intro curves
    obtain ⟨log, answered, length, entries⟩ := ih (curves ++ first.curves)
    let c := given dialect motion header footer (curves ++ first.curves)
    refine ⟨(first.passes?.map c.programOf, c) :: log, ?_, congrArg (· + 1) length,
      fun k call h => ?_⟩
    · rw [answers_cons (answer_given dialect header footer hs h0 h1 curves first), answered]
      rfl
    · rcases k with _ | k
      · cases h
        simp [c]
      · have entry := entries k call h
        rw [List.append_assoc, ← List.flatMap_cons] at entry
        exact entry

end Given

/-- Calls in any order to a fresh compiler. After each of them the compiler is the one that was
given all curves up to then at once, whatever programs were asked for in between, and its body is
that of these curves. A call for a program gives the header, the body once for each pass with a step
down between each two, and the footer, without the lines that are empty. -/
theorem answers_new (dialect : Dialect) (motion : Motion Float)
    (header footer : List (Instruction Float)) (hs : motion.cuttingSpeed.isNaN = false)
    (calls : List (Call Float)) :
    ∃ log, (new dialect motion header footer).answers calls = .ok log ∧
      log.length = calls.length ∧
      ∀ k call, calls[k]? = some call → ∃ program c, log[k]? = some (program, c) ∧
        (new dialect motion header footer).appendAll ((calls.take (k + 1)).flatMap Call.curves) =
          .ok c ∧
        c.body = (bodyOf motion ((calls.take (k + 1)).flatMap Call.curves)).filter
          (dialect.line · ≠ "") ∧
        (program = call.passes?.map fun n =>
          (header ++ (rounds motion c.body n).flatten ++ footer).filter (dialect.line · ≠ "")) ∧
        (c.body ≠ [] → ∀ n, (rounds motion c.body n).length = n) := by
  have speed := Binary64.beq_self hs
  obtain ⟨log, answered, length, entries⟩ :=
    answers_given dialect header footer speed Binary64.zero_le_one Binary64.one_le_one calls []
  refine ⟨log, answered, length, fun k call h => ⟨_, _, entries k call h, ?_, ?_, ?_, ?_⟩⟩
  · exact appendAll_given dialect header footer speed Binary64.zero_le_one Binary64.one_le_one [] _
  · rw [← dialect.not_isSilent_eq]
    rfl
  · rw [← dialect.not_isSilent_eq]
    rfl
  · exact fun drawn n => length_rounds motion drawn n

/-- A fresh compiler whose tool needs no line to go on. -/
def plain : Compiler Float :=
  new ⟨1, some ⟨"M5;", ""⟩⟩ ⟨3000, 750, 0, 1⟩ [.verbatim "G90;"] [.verbatim ""]

/-- A program between two lines that meet, and another after the second. -/
theorem answers_new_between_lines :
    plain.motion.cuttingSpeed.isNaN = false ∧
      ∃ log program c,
        plain.answers [.append (.line ⟨0, 0⟩ ⟨10, 0⟩), .compile 2,
          .append (.line ⟨10, 0⟩ ⟨10, 5⟩), .compile 2] = .ok log ∧
        log[3]? = some (program, c) ∧
        plain.appendAll [.line ⟨0, 0⟩ ⟨10, 0⟩, .line ⟨10, 0⟩ ⟨10, 5⟩] = .ok c ∧
        program.map (·.map plain.dialect.line) =
          some ["G90;", "M5;", "G0 X0.0 Y0.0;", "G1 F750 X10.0 Y0.0;", "G1 X10.0 Y5.0;",
            "M5;", "M5;", "G0 X0.0 Y0.0;", "G1 F750 X10.0 Y0.0;", "G1 X10.0 Y5.0;"] := by
  refine ⟨by decide, ?_⟩
  obtain ⟨log, answered, -, entries⟩ := answers_new plain.dialect plain.motion plain.header
    plain.footer (by decide) [.append (.line ⟨0, 0⟩ ⟨10, 0⟩), .compile 2,
      .append (.line ⟨10, 0⟩ ⟨10, 5⟩), .compile 2]
  obtain ⟨program, c, entry, appended, body, written, -⟩ := entries 3 (.compile 2) rfl
  refine ⟨log, program, c, answered, entry, appended, ?_⟩
  rw [written, body]
  decide +kernel

end Compiler
end LaserCut.Gcode
