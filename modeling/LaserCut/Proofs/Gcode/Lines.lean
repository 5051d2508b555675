import LaserCut.Gcode.Lines
import LaserCut.Proofs.Gcode.Calls

/-!
# When lines can be written

Requests of a compiler are always granted, so that only the places of a coordinate can keep its
lines from being written.

* `WrittenIff`: a result under a condition, and a refusal for the places otherwise;
* `Compiler.Writable`: with too many places for a coordinate, nothing has been drawn;
* `Compiler.Writable.writtenIff_replies`: calls in any order give lines unless one of them adds a
  curve and the places are too many.
-/

namespace LaserCut.Gcode

/-! ## Outcomes -/

section Written

variable {β γ : Type} {p q : Prop} {Q : β → Prop} {R : γ → Prop} {x : Except LineError β}

/-- There is a result, and it is as stated, if the condition holds; otherwise there is a refusal for
the places of a coordinate. -/
def WrittenIff (p : Prop) (Q : β → Prop) (x : Except LineError β) : Prop :=
  ((∃ b, x = .ok b ∧ Q b) ↔ p) ∧ (x = .error .places ↔ ¬ p)

theorem writtenIff_of_ok {b : β} (h : x = .ok b) (hp : p) (hb : Q b) : WrittenIff p Q x := by
  subst h
  refine ⟨iff_of_true ⟨b, rfl, hb⟩ hp, iff_of_false ?_ (not_not_intro hp)⟩
  intro refused
  cases refused

theorem writtenIff_of_places (h : x = .error .places) (hp : ¬ p) : WrittenIff p Q x := by
  subst h
  refine ⟨iff_of_false ?_ hp, iff_of_true rfl hp⟩
  rintro ⟨b, written, -⟩
  cases written

theorem WrittenIff.congr (h : WrittenIff p Q x) (same : p ↔ q) : WrittenIff q Q x := by
  rw [WrittenIff, ← same]
  exact h

theorem WrittenIff.bind {f : β → Except LineError γ} (first : WrittenIff p Q x)
    (next : ∀ b, p → Q b → WrittenIff q R (f b)) : WrittenIff (p ∧ q) R (x >>= f) := by
  by_cases hp : p
  · obtain ⟨b, written, hb⟩ := first.1.mpr hp
    rw [written]
    exact (next b hp hb).congr (and_iff_right hp).symm
  · exact writtenIff_of_places (by rw [first.2.mpr hp]; rfl) fun both => hp both.1

/-- Making something of a result refuses nothing. -/
theorem WrittenIff.map {f : β → γ} (first : WrittenIff p Q x) (next : ∀ b, p → Q b → R (f b)) :
    WrittenIff p R (x >>= fun b => .ok (f b)) :=
  (first.bind fun b hp hb => writtenIff_of_ok rfl trivial (next b hp hb)).congr
    (and_iff_left trivial)

end Written

/-! ## Instructions -/

theorem AxisWords.isEmpty_height {α : Type} (z : α) : (height z).isEmpty = false := rfl

theorem AxisWords.isEmpty_plane {α : Type} (x y : α) : (plane x y).isEmpty = false := rfl

namespace Dialect

variable (d : Dialect)

theorem writtenIff_lines (is : List (Instruction Float)) :
    WrittenIff (is.all d.canWrite = true) (· = is.map d.line) (d.lines is) := by
  rw [lines]
  split
  · exact writtenIff_of_ok rfl ‹_› rfl
  · exact writtenIff_of_places rfl ‹_›

theorem all_canWrite_of_le {d : Dialect} (few : d.places ≤ maxPlaces)
    (is : List (Instruction Float)) : is.all d.canWrite = true := by
  rw [List.all_eq_true]
  intro i _
  cases i with
  | rapid words | cut feed words => simp [canWrite, few]
  | _ => rfl

theorem all_canWrite_verbatim (lines : List String) :
    (lines.map Instruction.verbatim).all d.canWrite = true := by
  rw [List.all_map, List.all_eq_true]
  exact fun line _ => rfl

theorem all_canWrite_rapid_iff {words : AxisWords Float} (worded : words.isEmpty = false)
    (asked : Bool) :
    (if asked then [Instruction.rapid words] else []).all d.canWrite = true ↔
      d.places ≤ maxPlaces ∨ asked = false := by
  cases asked <;> simp [canWrite, worded]

/-- What is left out of programs has no coordinates. -/
theorem all_canWrite_filter (is : List (Instruction Float)) :
    (is.filter (!d.isSilent ·)).all d.canWrite = is.all d.canWrite := by
  induction is with
  | nil => rfl
  | cons i is ih =>
    rw [List.filter_cons, List.all_cons, ← ih]
    split
    · rw [List.all_cons]
    · have silent : d.isSilent i = true := by simpa using ‹¬ (!d.isSilent i) = true›
      have written : d.canWrite i = true := by
        cases i with
        | rapid words | cut feed words => cases silent
        | _ => rfl
      rw [written, Bool.true_and]

end Dialect

/-! ## Moves that are drawn -/

section Drawn

variable {dialect : Dialect} (many : ¬ dialect.places ≤ maxPlaces)

include many

theorem Controller.all_canWrite_of_move {c d : Controller Float} {words : AxisWords Float}
    (worded : words.isEmpty = false) {i : Option (Instruction Float)}
    (moved : c.move words = (.ok i, d)) : i.toList.all dialect.canWrite = false := by
  have written : (words.isEmpty || decide (dialect.places ≤ maxPlaces)) = false := by
    rw [worded, decide_eq_false many]
    rfl
  rw [move] at moved
  split at moved
  · cases moved
  · rw [worded, if_neg Bool.false_ne_true] at moved
    repeat' split at moved
    all_goals
      cases moved
      show (_ && true) = false
      rw [Bool.and_true]
      exact written

/-- A move that is asked for is among the instructions. -/
theorem Controller.all_canWrite_of_perform {c d : Controller Float} {rs : List (Request Float)}
    {is : List (Instruction Float)} {words : AxisWords Float} (worded : words.isEmpty = false)
    (mem : .move words ∈ rs) (performed : c.perform rs = .ok (is, d)) :
    is.all dialect.canWrite = false := by
  induction rs generalizing c is with
  | nil => cases mem
  | cons r rs ih =>
    rw [perform] at performed
    split at performed
    · cases performed
    · rename_i i e handled
      obtain ⟨⟨js, f⟩, rest, eq⟩ := Outcome.map_eq_ok_iff.mp performed
      cases eq
      rw [List.all_append]
      rcases List.mem_cons.mp mem with rfl | mem
      · rw [all_canWrite_of_move many worded handled, Bool.false_and]
      · rw [ih mem rest, Bool.and_false]

/-- A curve that is drawn ends with a move. -/
theorem all_canWrite_of_draw {motion : Motion Float} {c d : Controller Float}
    {curves : List (Curve Float)} (ne : curves ≠ []) {is : List (Instruction Float)}
    (drawn : draw motion c curves = .ok (is, d)) : is.all dialect.canWrite = false := by
  rcases curves with _ | ⟨curve, rest⟩
  · exact absurd rfl ne
  · rw [draw_cons] at drawn
    obtain ⟨⟨first, e⟩, performed, drawn⟩ := Outcome.bind_eq_ok_iff.mp drawn
    obtain ⟨⟨others, f⟩, -, eq⟩ := Outcome.map_eq_ok_iff.mp drawn
    cases eq
    obtain ⟨p, hp⟩ := List.exists_mem_of_ne_nil _ (curve.flatten_ne_nil motion.tolerance)
    have mem : .move (.plane p.x p.y) ∈ drawing motion c.position curve :=
      List.mem_append_right _ (List.mem_map_of_mem hp)
    have written :=
      Controller.all_canWrite_of_perform many (AxisWords.isEmpty_plane _ _) mem performed
    rw [List.all_append, written, Bool.false_and]

end Drawn

/-- Only with few enough places, or without curves, can all that is drawn be written. -/
theorem all_canWrite_draw_iff (dialect : Dialect) {motion : Motion Float} {c d : Controller Float}
    {curves : List (Curve Float)} {is : List (Instruction Float)}
    (drawn : draw motion c curves = .ok (is, d)) :
    is.all dialect.canWrite = true ↔ dialect.places ≤ maxPlaces ∨ curves = [] := by
  constructor
  · intro written
    by_contra neither
    rw [not_or] at neither
    rw [all_canWrite_of_draw neither.1 neither.2 drawn] at written
    cases written
  · rintro (few | rfl)
    · exact Dialect.all_canWrite_of_le few is
    · cases drawn
      rfl

/-! ## Calls -/

namespace Compiler

/-- The lines that a call gives, and the compiler after it. -/
def reply (c : Compiler Float) : Call Float → Except LineError (List String × Compiler Float)
  | .append curve => c.appendLines [curve]
  | .appendAll curves => c.appendLines curves
  | .compile passes => c.programLines passes

/-- The lines that each of the calls gives in turn. -/
def replies (c : Compiler Float) : List (Call Float) → Except LineError (List (List String))
  | [] => .ok []
  | call :: calls => do
    let (lines, c) ← c.reply call
    return lines :: (← c.replies calls)

/-- What stands in a compiler can be written: unless coordinates have few enough places, nothing
has been drawn. -/
structure Writable (c : Compiler Float) : Prop where
  ready : c.Ready
  frame : (c.header ++ c.footer).all c.dialect.canWrite = true
  body : c.dialect.places ≤ maxPlaces ∨ c.body = []

theorem writable_between (dialect : Dialect) (motion : Motion Float) (header footer : List String) :
    (between dialect motion header footer).Writable where
  ready := ready_new dialect motion _ _
  frame := by
    rw [List.all_append, Bool.and_eq_true]
    exact ⟨dialect.all_canWrite_verbatim header, dialect.all_canWrite_verbatim footer⟩
  body := .inr rfl

namespace Writable

variable {c : Compiler Float} (h : c.Writable)

include h

/-- Curves are added if their coordinates can be written. -/
theorem writtenIff_appendLines (curves : List (Curve Float)) :
    WrittenIff (c.dialect.places ≤ maxPlaces ∨ curves = [])
      (fun reply => reply.2.Writable ∧ reply.2.dialect = c.dialect) (c.appendLines curves) := by
  obtain ⟨d, appended, ready⟩ :=
    h.ready.exists_appendAll Binary64.zero_le_one Binary64.one_le_one curves
  obtain ⟨⟨is, controller⟩, drawn, rfl⟩ := Outcome.map_eq_ok_iff.mp appended
  have canWrite := all_canWrite_draw_iff c.dialect drawn
  have added : (c.body ++ is.filter (!c.dialect.isSilent ·)).drop c.body.length =
      is.filter (!c.dialect.isSilent ·) := List.drop_left
  rw [appendLines, appended]
  show WrittenIff _ _ (c.dialect.lines (List.drop c.body.length _) >>= _)
  rw [added, ← canWrite, ← Dialect.all_canWrite_filter]
  refine (c.dialect.writtenIff_lines _).map fun lines written _ => ⟨⟨ready, h.frame, ?_⟩, rfl⟩
  rw [Dialect.all_canWrite_filter, canWrite] at written
  rcases written with few | rfl
  · exact .inl few
  · cases drawn
    exact h.body.imp_right fun empty => by rw [empty]; rfl

/-- A program is written whenever it is asked for. -/
theorem writtenIff_programLines (count : Nat) :
    WrittenIff True (fun reply => reply.2.Writable ∧ reply.2.dialect = c.dialect)
      (c.programLines count) := by
  obtain ⟨is, d, written, ready⟩ := h.ready.exists_program count
  obtain ⟨⟨middle, controller⟩, passed, eq⟩ := Outcome.map_eq_ok_iff.mp written
  cases eq
  have canWrite : middle.all c.dialect.canWrite = true := by
    rcases h.body with few | empty
    · exact Dialect.all_canWrite_of_le few middle
    · rw [passes, empty] at passed
      cases passed
      rfl
  have all : ((c.header ++ middle ++ c.footer).filter (!c.dialect.isSilent ·)).all
      c.dialect.canWrite = true := by
    have frame := h.frame
    rw [List.all_append, Bool.and_eq_true] at frame
    rw [Dialect.all_canWrite_filter, List.all_append, List.all_append, frame.1, canWrite, frame.2]
    rfl
  rw [programLines, written]
  show WrittenIff _ _ (c.dialect.lines _ >>= _)
  exact ((c.dialect.writtenIff_lines _).map fun lines _ _ => ⟨⟨ready, h.frame, h.body⟩, rfl⟩).congr
    (iff_of_true all trivial)

theorem writtenIff_reply (call : Call Float) :
    WrittenIff (c.dialect.places ≤ maxPlaces ∨ call.curves = [])
      (fun reply => reply.2.Writable ∧ reply.2.dialect = c.dialect) (c.reply call) := by
  cases call with
  | append curve => exact h.writtenIff_appendLines [curve]
  | appendAll curves => exact h.writtenIff_appendLines curves
  | compile passes =>
    exact (h.writtenIff_programLines passes).congr (iff_of_true trivial (.inr rfl))

omit h in
/-- All calls are answered with lines unless a curve among them has too many places. -/
theorem writtenIff_replies (calls : List (Call Float)) :
    ∀ {c : Compiler Float}, c.Writable →
      WrittenIff (c.dialect.places ≤ maxPlaces ∨ calls.flatMap Call.curves = [])
        (·.length = calls.length) (c.replies calls) := by
  induction calls with
  | nil => exact fun _ => writtenIff_of_ok rfl (.inr rfl) rfl
  | cons call calls ih =>
    intro c h
    rw [List.flatMap_cons, List.append_eq_nil_iff, or_and_left]
    refine (h.writtenIff_reply call).bind fun reply _ after => ?_
    obtain ⟨hd, same⟩ := after
    rw [← same]
    exact (ih hd).map fun log _ length => congrArg (· + 1) length

end Writable
end Compiler
end LaserCut.Gcode
