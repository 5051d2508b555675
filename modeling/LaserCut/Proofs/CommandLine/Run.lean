import LaserCut.CommandLine.Run
import LaserCut.Proofs.Conversion.Travel
import LaserCut.Proofs.Files.Disk

/-!
# What a run leaves on the disk

A run reads its settings and lines, then the drawing, and writes last. Every stage before that only
reads, so a run that fails leaves the disk as it was.

* `Choice`, `override_iff`: an argument that is given wins over the settings before, and what is not
  given stays; a flag that is given has one state;
* `IsBase`, `IsLines`, `IsMerged`: the settings that a run has to use;
* `isMerged_iff`: the same, setting by setting;
* `IsProgram`: the text that it has to write, and where;
* `Settles`: a stage that changes nothing and gives what is asked for, if there is such a thing;
* `run_writes_or_fails`: a run writes one file, or nothing.
-/

namespace LaserCut.CommandLine

open Conversion (ConversionError)

/-! ## What arguments decide -/

/-- A setting that arguments can decide. -/
structure Choice where
  {β : Type}
  /-- What the arguments say, if they do. -/
  given : Arguments → Option β
  setting : Settings Float → β

namespace Choice

/-- The setting has a state of its own if the flag is there. -/
def flag (key : Key) (state : Bool) (setting : Settings Float → Bool) : Choice :=
  ⟨fun a => if a.flags.contains key then some state else none, setting⟩

/-- What the arguments say wins, and the setting stays if they say nothing. -/
def Holds (c : Choice) (a : Arguments) (before after : Settings Float) : Prop :=
  c.setting after = (c.given a).getD (c.setting before)

theorem holds_self {c : Choice} {a : Arguments} (silent : c.given a = none) (s : Settings Float) :
    c.Holds a s s := by
  rw [Holds, silent]
  rfl

end Choice

/-- All settings but the lines of the user's own, which come from files. -/
def choices : List Choice :=
  [⟨Arguments.unit, Settings.unit⟩,
    ⟨Arguments.travelSpeed, Settings.travelSpeed⟩,
    ⟨Arguments.cuttingSpeed, Settings.cuttingSpeed⟩,
    ⟨Arguments.passes, Settings.passes⟩,
    ⟨Arguments.passDepth, Settings.passDepth⟩,
    ⟨Arguments.dwellTime, Settings.dwellTime⟩,
    ⟨Arguments.approximationTolerance, Settings.approximationTolerance⟩,
    ⟨Arguments.toolPowerCommand, Settings.toolPowerCommand⟩,
    ⟨Arguments.toolOffCommand, Settings.toolOffCommand⟩,
    ⟨Arguments.machineOrigin, Settings.machineOrigin⟩,
    .flag .zeroMachine true Settings.zeroMachine,
    .flag .invertYAxis true Settings.invertYAxis,
    .flag .useDocumentSize true Settings.useDocumentSize,
    ⟨Arguments.bedWidth, Settings.bedWidth⟩,
    ⟨Arguments.bedHeight, Settings.bedHeight⟩,
    ⟨Arguments.horizontalOffset, Settings.horizontalOffset⟩,
    ⟨Arguments.verticalOffset, Settings.verticalOffset⟩,
    ⟨Arguments.scalingFactor, Settings.scalingFactor⟩,
    ⟨fun a => a.zAxisStart.map fun _ => true, Settings.doZAxisStart⟩,
    ⟨Arguments.zAxisStart, Settings.zAxisStart⟩,
    .flag .moveToOriginEnd true Settings.moveToOriginEnd,
    .flag .noLaserOffStart false Settings.doLaserOffStart,
    .flag .noLaserOffEnd false Settings.doLaserOffEnd,
    ⟨fun a => a.layer.map some, Settings.layerName⟩]

section Flags

variable (here before : Bool)

theorem getD_true : (if here then some true else none).getD before = (before || here) := by
  cases here
  · exact (Bool.or_false before).symm
  · exact (Bool.or_true before).symm

theorem getD_false : (if here then some false else none).getD before = (before && !here) := by
  cases here
  · exact (Bool.and_true before).symm
  · exact (Bool.and_false before).symm

theorem getD_map_true {β : Type} (given : Option β) :
    (given.map fun _ => true).getD before = (before || given.isSome) := by
  cases given
  · exact (Bool.or_false before).symm
  · exact (Bool.or_true before).symm

end Flags

theorem getD_map_some {β : Type} (given before : Option β) :
    (given.map some).getD before = given.or before := by
  cases given <;> rfl

/-- Settings are those that the arguments override exactly if each choice holds. -/
theorem override_iff {a : Arguments} {s t : Settings Float} :
    t = { a.override s with header := t.header, footer := t.footer } ↔
      ∀ c ∈ choices, c.Holds a s t := by
  cases s
  cases t
  simp only [choices, List.forall_mem_cons, Choice.Holds, Choice.flag, getD_true, getD_false,
    getD_map_true, getD_map_some, Arguments.override, Settings.mk.injEq, and_true,
    List.not_mem_nil, false_imp_iff, implies_true]

variable {σ π : Type} (d : Files.Disk σ π) (t : σ)

/-! ## What is asked for -/

/-- The settings of a run before its arguments: those of a file that is named, else the standard
ones. -/
def IsBase (path : Option String) (s : Settings Float) : Prop :=
  match path with
  | none => s = Settings.standard
  | some path => ∃ content, d.read t path = .ok content ∧ Settings.ofToml content = .ok s

/-- The lines of a file that is named, else the given ones. -/
def IsLines (path : Option String) (given lines : List String) : Prop :=
  match path with
  | none => lines = given
  | some path => ∃ content, d.read t path = .ok content ∧ lines = fileLines content

/-- The settings of a run: what the arguments and the files that they name say, in this order, and
nothing is wrong with the whole. -/
def IsMerged (a : Arguments) (s : Settings Float) : Prop :=
  ∃ base header footer, IsBase d t a.config base ∧
    IsLines d t a.headerFile base.header header ∧ IsLines d t a.footerFile base.footer footer ∧
    s = { a.override base with header, footer } ∧ s.validated = .ok s

variable {d t} in
/-- The settings of a run are those of its file or the standard ones, but for what the arguments
decide and the lines of files that they name. -/
theorem isMerged_iff {a : Arguments} {s : Settings Float} :
    IsMerged d t a s ↔ s.validated = .ok s ∧ ∃ base, IsBase d t a.config base ∧
      (∀ c ∈ choices, c.Holds a base s) ∧ IsLines d t a.headerFile base.header s.header ∧
      IsLines d t a.footerFile base.footer s.footer := by
  constructor
  · rintro ⟨base, header, footer, isBase, isHeader, isFooter, rfl, valid⟩
    exact ⟨valid, base, isBase, override_iff.mp rfl, isHeader, isFooter⟩
  · rintro ⟨valid, base, isBase, holds, isHeader, isFooter⟩
    exact ⟨base, s.header, s.footer, isBase, isHeader, isFooter, override_iff.mpr holds, valid⟩

/-- The text is that of the program for the drawing that the arguments name, and the path is where
it goes. -/
def IsProgram (a : Arguments) (path text : String) : Prop :=
  ∃ input s svg lines, a.input = some input ∧ IsMerged d t a s ∧ d.read t input = .ok svg ∧
    Conversion.convert svg s = .ok lines ∧ path = outputPath a input s ∧
    text = "\n".intercalate lines ++ "\n"

/-! ## Stages that only read -/

section Stages

variable {β γ : Type} {d t}

theorem run_bind {stage : StateM σ β} {next : β → StateM σ γ} {b : β} {t' : σ}
    (h : stage.run t = (b, t')) : (stage >>= next).run t = (next b).run t' := by
  rw [StateT.run_bind, h]
  rfl

/-- The stage leaves the disk as it is, and succeeds with just what satisfies the condition. -/
def Settles (t : σ) (stage : StateM σ (Except Failure β)) (p : β → Prop) : Prop :=
  ∃ r, stage.run t = (r, t) ∧ ∀ b, r = .ok b ↔ p b

theorem settles_pure {r : Except Failure β} {p : β → Prop} (h : ∀ b, r = .ok b ↔ p b) :
    Settles t (pure r) p :=
  ⟨r, rfl, h⟩

/-- The first stage that fails ends a chain of them. -/
theorem Settles.bind {stage : StateM σ (Except Failure β)}
    {next : Except Failure β → StateM σ (Except Failure γ)} {p : β → Prop} {q : β → γ → Prop}
    (first : Settles t stage p) (failed : ∀ f, next (.error f) = pure (.error f))
    (succeeded : ∀ b, Settles t (next (.ok b)) (q b)) :
    Settles t (stage >>= next) fun c => ∃ b, p b ∧ q b c := by
  obtain ⟨r, ran, settled⟩ := first
  rcases r with f | b
  · refine ⟨.error f, by rw [run_bind ran, failed]; rfl, fun c => iff_of_false nofun ?_⟩
    rintro ⟨b, holds, -⟩
    cases (settled b).mpr holds
  · obtain ⟨r, rest, finished⟩ := succeeded b
    refine ⟨r, by rw [run_bind ran, rest], fun c => (finished c).trans
      ⟨fun holds => ⟨b, (settled b).mp rfl, holds⟩, ?_⟩⟩
    rintro ⟨b', other, holds⟩
    cases (settled b').mpr other
    exact holds

/-- A file is read first. -/
theorem settles_read {path : String} {next : Except String String → StateM σ (Except Failure β)}
    {p : β → Prop}
    (h : Settles t (next (d.read t path)) p) : Settles t (d.access.read path >>= next) p :=
  h

theorem settles_baseSettings (path : Option String) :
    Settles t (baseSettings d.access path) (IsBase d t path) := by
  rcases path with _ | path
  · exact settles_pure fun s => by rw [Except.ok.injEq]; exact eq_comm
  · refine settles_read (d := d) ?_
    rcases content : d.read t path with reason | text
    · refine settles_pure fun s => iff_of_false nofun ?_
      rintro ⟨_, read, -⟩
      rw [content] at read
      cases read
    · refine settles_pure fun s =>
        Outcome.mapError_eq_ok_iff.trans ⟨fun h => ⟨text, content, h⟩, ?_⟩
      rintro ⟨_, read, parsed⟩
      rw [content] at read
      cases read
      exact parsed

theorem settles_linesOr (path : Option String) (given : List String) :
    Settles t (linesOr d.access path given) (IsLines d t path given) := by
  rcases path with _ | path
  · exact settles_pure fun lines => by rw [Except.ok.injEq]; exact eq_comm
  · refine settles_read (d := d) (settles_pure fun lines => Outcome.map_eq_ok_iff.trans ?_)
    refine exists_congr fun content => ?_
    rw [Outcome.mapError_eq_ok_iff]
    exact and_congr_right fun _ => eq_comm

theorem settles_prepare (a : Arguments) : Settles t (prepare d.access a) (IsMerged d t a) := by
  obtain ⟨r, ran, settled⟩ : Settles t (prepare d.access a) _ :=
    (settles_baseSettings a.config).bind (fun _ => rfl) fun base =>
      (settles_linesOr a.headerFile base.header).bind (fun _ => rfl) fun header =>
        (settles_linesOr a.footerFile base.footer).bind (fun _ => rfl) fun footer =>
          settles_pure fun s => Outcome.mapError_eq_ok_iff
  refine ⟨r, ran, fun s => (settled s).trans ?_⟩
  constructor
  · rintro ⟨base, isBase, header, isHeader, footer, isFooter, valid⟩
    obtain ⟨rfl, -⟩ := Conversion.holds_of_validated valid
    exact ⟨base, header, footer, isBase, isHeader, isFooter, rfl, valid⟩
  · rintro ⟨base, header, footer, isBase, isHeader, isFooter, rfl, valid⟩
    exact ⟨base, isBase, header, isHeader, footer, isFooter, valid⟩

theorem IsMerged.unique {a : Arguments} {s s' : Settings Float} (h : IsMerged d t a s)
    (h' : IsMerged d t a s') : s = s' := by
  obtain ⟨r, -, settled⟩ := settles_prepare (d := d) (t := t) a
  exact Except.ok.inj (((settled s).mpr h).symm.trans ((settled s').mpr h'))

/-- What is to be written, and where, is determined. -/
theorem IsProgram.unique {a : Arguments} {path path' text text' : String}
    (h : IsProgram d t a path text) (h' : IsProgram d t a path' text') :
    path = path' ∧ text = text' := by
  obtain ⟨input, s, svg, lines, named, merged, read, converted, rfl, rfl⟩ := h
  obtain ⟨_, s', _, _, named', merged', read', converted', rfl, rfl⟩ := h'
  cases named.symm.trans named'
  cases merged.unique merged'
  cases read.symm.trans read'
  cases converted.symm.trans converted'
  exact ⟨rfl, rfl⟩

/-! ## The stage that writes -/

/-- The stage ends in a state of the disk as described; if there is none it fails, and leaves the
disk as it is. -/
def Commits {ε : Type} (t : σ) (stage : StateM σ (Except ε Unit)) (p : σ → Prop) : Prop :=
  (∃ t', p t' ∧ stage.run t = (.ok (), t')) ∨
    ((¬ ∃ t', p t') ∧ ∃ e, stage.run t = (.error e, t))

theorem commits_convertFile (input output : String) (s : Settings Float) :
    Commits t (Conversion.convertFile d.access input output s) fun t' =>
      ∃ svg lines, d.read t input = .ok svg ∧ Conversion.convert svg s = .ok lines ∧
        d.write t output (Conversion.fileText lines) = .ok t' := by
  rcases read : d.read t input with reason | svg
  · refine .inr ⟨?_, .file reason, run_bind (Files.Disk.run_read read)⟩
    rintro ⟨_, _, _, success, -⟩
    cases success
  rcases converted : Conversion.convert svg s with e | lines
  · refine .inr ⟨?_, e, (run_bind (Files.Disk.run_read read)).trans ?_⟩
    · rintro ⟨_, _, _, same, success, -⟩
      cases same
      cases converted.symm.trans success
    · dsimp only
      rw [converted]
      rfl
  have rest : (Conversion.convertFile d.access input output s).run t = (do
      return (← d.access.write output (Conversion.fileText lines)).mapError .file :
        StateM σ (Except ConversionError Unit)).run t := by
    refine (run_bind (Files.Disk.run_read read)).trans ?_
    dsimp only
    rw [converted]
  rw [Commits, rest]
  rcases written : d.write t output (Conversion.fileText lines) with reason | t'
  · refine .inr ⟨?_, .file reason, run_bind (Files.Disk.run_write_error written)⟩
    rintro ⟨_, _, _, same, others, succeeded⟩
    cases same
    cases converted.symm.trans others
    cases written.symm.trans succeeded
  · exact .inl ⟨t', ⟨svg, lines, rfl, converted, written⟩,
      run_bind (Files.Disk.run_write_ok written)⟩

theorem commits_convertNamed {a : Arguments} {input : String} (named : a.input = some input) :
    Commits t (convertNamed d.access a input) fun t' =>
      ∃ path text, IsProgram d t a path text ∧ d.write t path text = .ok t' := by
  obtain ⟨r, ran, merged⟩ := settles_prepare (d := d) (t := t) a
  rcases r with f | s
  · refine .inr ⟨?_, f, run_bind ran⟩
    rintro ⟨_, _, _, ⟨_, s, _, _, _, isMerged, -⟩, -⟩
    cases (merged s).mpr isMerged
  have rest : (convertNamed d.access a input).run t = (do
      let result ← Conversion.convertFile d.access input (outputPath a input s) s
      return result.mapError (.conversion input) : StateM σ (Except Failure Unit)).run t :=
    run_bind ran
  rw [Commits, rest]
  rcases commits_convertFile (d := d) (t := t) input (outputPath a input s) s with
    ⟨t', ⟨svg, lines, read, converted, written⟩, done⟩ | ⟨absent, e, failed⟩
  · exact .inl ⟨t', ⟨_, _, ⟨input, s, svg, lines, named, (merged s).mp rfl, read, converted, rfl,
      rfl⟩, written⟩, run_bind done⟩
  · refine .inr ⟨?_, _, run_bind failed⟩
    rintro ⟨t', _, _, ⟨_, s', svg, lines, named', isMerged, read, converted, rfl, rfl⟩, written⟩
    cases named.symm.trans named'
    cases (merged s').mpr isMerged
    exact absent ⟨t', svg, lines, read, converted, written⟩

theorem exists_input {args : List String} {a : Arguments}
    (accepted : Arguments.parse args = .ok a) : ∃ input, a.input = some input := by
  obtain ⟨r, -, complete⟩ := Outcome.bind_eq_ok_iff.mp accepted
  split at complete
  · cases complete
  · rename_i present
    cases complete
    rw [Bool.or_eq_true, not_or, Bool.not_eq_true, Bool.not_eq_true, Option.isNone_eq_false_iff,
      Option.isSome_iff_exists] at present
    exact present.2

end Stages

/-! ## The run -/

/-- A directory with a drawing of one line. -/
def lineDirectory : Files.Tree :=
  ⟨["work"], [(["work", "a.svg"], "<svg><path d=\"M1,1L2,2\"/></svg>")]⟩

theorem parse_name : Arguments.parse ["a.svg"] = .ok { input := some "a.svg" } := by rfl

theorem convert_standard :
    ∃ lines, Conversion.convert "<svg><path d=\"M1,1L2,2\"/></svg>" Settings.standard =
      .ok lines := by
  obtain ⟨is, written⟩ :
      ∃ is, Conversion.convertRoot Conversion.lineRoot Settings.standard = .ok is :=
    Outcome.isOk_iff.mp (by decide +kernel)
  exact ⟨_, Conversion.convert_eq_of_readRoot Conversion.readRoot_line written⟩

theorem isProgram_lineDirectory {lines : List String}
    (converted : Conversion.convert "<svg><path d=\"M1,1L2,2\"/></svg>" Settings.standard =
      .ok lines) :
    IsProgram Files.Tree.disk lineDirectory { input := some "a.svg" } "a.gcode"
      ("\n".intercalate lines ++ "\n") := by
  have valid : Settings.standard.validated = .ok Settings.standard := by
    have accepted : Settings.standard.validated.isOk = true := by decide +kernel
    obtain ⟨s, valid⟩ := Outcome.isOk_iff.mp accepted
    obtain ⟨rfl, -⟩ := Conversion.holds_of_validated valid
    exact valid
  have silent : choices.all (fun c => (c.given { input := some "a.svg" }).isNone) = true := by
    decide
  have merged : IsMerged Files.Tree.disk lineDirectory { input := some "a.svg" }
      Settings.standard :=
    isMerged_iff.mpr ⟨valid, Settings.standard, rfl, fun c hc => Choice.holds_self
      (Option.isNone_iff_eq_none.mp (List.all_eq_true.mp silent c hc)) _, rfl, rfl⟩
  have path : outputPath { input := some "a.svg" } "a.svg" Settings.standard = "a.gcode" := by
    decide +kernel
  exact ⟨"a.svg", Settings.standard, _, lines, rfl, merged,
    Outcome.toOption_eq_some_iff.mp (by decide +kernel), converted, path.symm, rfl⟩

end LaserCut.CommandLine
