import LaserCut.Proofs.Gcode.Machine

/-!
# What the lines of instructions do

A machine whose laser is switched by proper tool lines obeys the line of an instruction as it is
meant (`ofLine_line`). Lines that are neither moves nor switches leave the kind of distances as it
is (`relative_perform_ofLine`).
-/

namespace LaserCut.Gcode

variable {ν : Type}

/-- The values that a machine reads for the axis words of a move. -/
def Dialect.read (d : Dialect) (value : String → ν) (w : AxisWords Float) : AxisWords ν :=
  ⟨w.x.map fun v => value (Decimal.fixed d.places v),
    w.y.map fun v => value (Decimal.fixed d.places v),
    w.z.map fun v => value (Decimal.fixed d.places v)⟩

namespace Instruction

/-- The instruction switches the laser or has to do with moves. -/
def isMotion {α : Type} : Instruction α → Bool
  | .rapid _ | .cut _ _ | .toolOff | .toolOn _ | .absolute | .relative => true
  | _ => false

/-- What an instruction is meant to do. -/
def action (d : Dialect) (value : String → ν) : Instruction Float → Action ν
  | .rapid words => .move true none (d.read value words)
  | .cut feed words =>
    .move false (feed.map fun f => value (Decimal.shortest f)) (d.read value words)
  | .toolOff => .laser false
  | .toolOn _ => .laser true
  | .absolute => .distances false
  | .relative => .distances true
  | _ => .other

end Instruction

namespace Action

variable {value : String → ν} {d : Dialect} {tool : ToolCommands}

theorem axes_moveWords (feed : Option Float) (w : AxisWords Float) :
    axes value (d.moveWords feed w) = d.read value w := by
  rcases w with ⟨_ | x, _ | y, _ | z⟩ <;> rcases feed with _ | f <;> rfl

theorem number?_moveWords (feed : Option Float) (w : AxisWords Float) :
    number? 'F' (d.moveWords feed w) = feed.map Decimal.shortest := by
  rcases w with ⟨_ | x, _ | y, _ | z⟩ <;> rcases feed with _ | f <;> rfl

/-- Lines of moves are not taken for tool lines. -/
theorem ofLine_of_code (proper : tool.Proper) {line : String} {code : Word} {words : List Word}
    (h : lineWords line = code :: words) (hc : code ∈ motionCodes) :
    ofLine value tool line = ofWords value (code :: words) := by
  have off : line ≠ tool.off := by
    intro same
    exact proper.off_code code (by rw [← same, h]; rfl) hc
  have on : line ≠ tool.on := by
    intro same
    exact proper.on_code code (by rw [← same, h]; rfl) hc
  rw [ofLine, if_neg off, if_neg on, h]

theorem ofWords_rapid (words : AxisWords Float) :
    ofWords value (lineWords (d.line (.rapid words))) =
      (Instruction.rapid words).action d value := by
  rw [d.lineWords_rapid, ofWords, if_pos rfl, axes_moveWords, number?_moveWords]
  rfl

theorem ofWords_cut (feed : Option Float) (words : AxisWords Float) :
    ofWords value (lineWords (d.line (.cut feed words))) =
      (Instruction.cut feed words).action d value := by
  rw [d.lineWords_cut, ofWords, if_neg (by decide), if_pos rfl, axes_moveWords, number?_moveWords,
    Option.map_map]
  rfl

/-- A machine obeys moves and switches as they are meant. -/
theorem ofLine_line (proper : tool.Proper) (hd : d.tool = some tool) {i : Instruction Float}
    (hi : i.isMotion = true) : ofLine value tool (d.line i) = i.action d value := by
  cases i with
  | rapid words =>
    rw [ofLine_of_code proper (d.lineWords_rapid words) (by decide), ← d.lineWords_rapid,
      ofWords_rapid]
  | cut feed words =>
    rw [ofLine_of_code proper (d.lineWords_cut feed words) (by decide), ← d.lineWords_cut,
      ofWords_cut]
  | toolOff =>
    rw [Dialect.line, hd]
    exact if_pos rfl
  | toolOn power =>
    rw [Dialect.line, hd]
    exact (if_neg proper.on_ne_off).trans (if_pos rfl)
  | absolute => exact ofLine_of_code proper d.lineWords_absolute (by decide)
  | relative => exact ofLine_of_code proper d.lineWords_relative (by decide)
  | _ => cases hi

/-- What is neither a move nor the choice of distances touches the coordinates at most. -/
theorem ofWords_of_not_mem (value : String → ν) {code : Word} (h : code ∉ motionCodes)
    (words : List Word) :
    (∃ place, ofWords value (code :: words) = .declare place) ∨
      ofWords value (code :: words) = .home ∨ ofWords value (code :: words) = .other := by
  simp only [motionCodes, List.mem_cons, not_or] at h
  obtain ⟨h0, h1, h90, h91, -⟩ := h
  rw [ofWords, if_neg h0, if_neg h1, if_neg h90, if_neg h91]
  split
  · exact .inl ⟨_, rfl⟩
  · split
    · exact .inr (.inl rfl)
    · exact .inr (.inr rfl)

end Action

/-! ## Absolute distances -/

namespace Instruction

/-- The line of the instruction can not make distances relative. -/
def keepsAbsolute {α : Type} : Instruction α → Bool
  | .relative | .verbatim _ => false
  | _ => true

end Instruction

/-- What is no move, no switch and no line of the user's has a code of its own. -/
theorem Dialect.exists_code (d : Dialect) {i : Instruction Float} (hi : i.isMotion = false)
    (hk : i.keepsAbsolute = true) :
    ∃ code words, lineWords (d.line i) = code :: words ∧ code ∉ motionCodes := by
  cases i with
  | dwell milliseconds => exact ⟨_, _, d.lineWords_dwell milliseconds, by decide⟩
  | setOrigin => exact ⟨_, _, d.lineWords_setOrigin, by decide⟩
  | unit u => cases u <;> exact ⟨_, _, d.lineWords_unit _, by decide⟩
  | home => exact ⟨_, _, d.lineWords_home, by decide⟩
  | verbatim line => cases hk
  | _ => cases hi

namespace Machine

variable [Add ν] {value : String → ν} {d : Dialect} {tool : ToolCommands}

theorem relative_perform_ofWords {code : Word} (h : code ∉ motionCodes) (words : List Word)
    (m : Machine ν) : (m.perform (.ofWords value (code :: words))).relative = m.relative := by
  rcases Action.ofWords_of_not_mem value h words with ⟨place, act⟩ | act | act <;>
    rw [act] <;> rfl

theorem relative_perform_ofLine (proper : tool.Proper) (hd : d.tool = some tool)
    {i : Instruction Float} (hk : i.keepsAbsolute = true) {m : Machine ν}
    (hm : m.relative = false) :
    (m.perform (.ofLine value tool (d.line i))).relative = false := by
  rcases hi : i.isMotion
  · obtain ⟨code, words, line, hc⟩ := d.exists_code hi hk
    rw [Action.ofLine]
    by_cases off : d.line i = tool.off
    · rw [if_pos off]
      exact hm
    by_cases on : d.line i = tool.on
    · rw [if_neg off, if_pos on]
      exact hm
    · rw [if_neg off, if_neg on, line, relative_perform_ofWords hc, hm]
  · rw [Action.ofLine_line proper hd hi]
    cases i with
    | relative => cases hk
    | absolute => rfl
    | _ => exact hm

/-- Absolute distances last until an instruction says otherwise. -/
theorem relative_run (proper : tool.Proper) (hd : d.tool = some tool)
    {is : List (Instruction Float)} (hk : ∀ i ∈ is, i.keepsAbsolute = true) {m : Machine ν}
    (hm : m.relative = false) :
    (m.run (is.map fun i => .ofLine value tool (d.line i))).relative = false := by
  induction is generalizing m with
  | nil => exact hm
  | cons i is ih =>
    exact ih (fun j hj => hk j (List.mem_cons_of_mem _ hj))
      (relative_perform_ofLine proper hd (hk i List.mem_cons_self) hm)

end Machine
end LaserCut.Gcode
