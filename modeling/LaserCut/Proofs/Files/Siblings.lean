import LaserCut.Files.Name
import LaserCut.Proofs.Files.Disk
import LaserCut.Proofs.Text.Fields

/-!
# Files beside a drawing

A path leads through directories to a name. Its empty parts and `.` lead nowhere, so two paths may
be written differently and yet name one file.

* `Address`, `address?`: where a path leads, by its parts;
* `address?_withName`: another name without a separator is that of a file in the same directory;
* `Tree.place?_eq_some_iff`: the address of a path says what file it names in a tree of files;
* `defaultOutput_isSibling`: the program for a layer goes beside the drawing, and to a file of its
  own, if the name of the layer has no separator. A separator leads to another directory, or to
  another file (`not_defaultOutput_isSibling`).
-/

namespace LaserCut.Files

/-! ## Parts of a path -/

/-- The parts of a path between its separators. -/
def pieces (path : List Char) : List (List Char) := Text.split (· == '/') path

/-- The part of a path leads nowhere. -/
def isIdle (part : List Char) : Bool := part.isEmpty || part == ['.']

/-- The parts of a path that lead somewhere. -/
def steps (path : List Char) : List (List Char) := (pieces path).filter (!isIdle ·)

/-- Where a path leads: through directories, from the root or from the working directory, to a
name. -/
structure Address where
  rooted : Bool
  directory : List (List Char)
  name : List Char
deriving DecidableEq, Repr

/-- The path begins at the root. -/
def isRooted (path : List Char) : Bool := path.head? == some '/'

/-- Where a path leads, if it ends in the name of a file. -/
def address? (path : List Char) : Option Address :=
  ((steps path).getLast?.filter (· != ['.', '.'])).map fun name =>
    ⟨isRooted path, (steps path).dropLast, name⟩

section Parts

variable {path name part : List Char}

theorem pieces_append_cons (before after : List Char) :
    pieces (before ++ '/' :: after) = pieces before ++ pieces after :=
  Text.split_append_separator rfl before after

theorem pieces_of_not_mem (h : '/' ∉ name) : pieces name = [name] :=
  Text.split_of_forall_not fun _ hc => beq_false_of_ne (ne_of_mem_of_not_mem hc h)

theorem not_mem_of_mem_pieces (h : part ∈ pieces path) : '/' ∉ part := fun mem =>
  absurd (Text.not_sep_of_mem_split h '/' mem) (by decide)

theorem steps_append_cons (before after : List Char) :
    steps (before ++ '/' :: after) = steps before ++ steps after := by
  rw [steps, pieces_append_cons, List.filter_append]
  rfl

theorem steps_of_not_mem (h : '/' ∉ name) (leads : isIdle name = false) : steps name = [name] := by
  rw [steps, pieces_of_not_mem h, List.filter_singleton, leads]
  rfl

theorem not_mem_of_mem_steps (h : part ∈ steps path) : '/' ∉ part :=
  not_mem_of_mem_pieces (List.mem_of_mem_filter h)

theorem address?_eq_some_iff {a : Address} :
    address? path = some a ↔
      steps path = a.directory ++ [a.name] ∧ a.name ≠ ['.', '.'] ∧ a.rooted = isRooted path := by
  obtain ⟨rooted, directory, name⟩ := a
  simp only [address?, Option.map_eq_some_iff, Option.filter_eq_some_iff, Address.mk.injEq,
    bne_iff_ne, ne_eq]
  constructor
  · rintro ⟨_, ⟨last, named⟩, rfl, rfl, rfl⟩
    exact ⟨(List.dropLast_append_getLast? _ last).symm, named, rfl⟩
  · rintro ⟨whole, named, rfl⟩
    exact ⟨name, ⟨by rw [whole, List.getLast?_concat], named⟩, rfl,
      by rw [whole, List.dropLast_concat], rfl⟩

end Parts

/-! ## The place of the file name -/

/-- Parts of a path, each with the separator behind it. -/
def slashed (parts : List (List Char)) : List Char := (parts.map (· ++ ['/'])).flatten

section Located

variable {path : List Char} {p : Located} {front rest : List (List Char)}

theorem slashed_cons (part : List Char) (parts : List (List Char)) :
    slashed (part :: parts) = part ++ '/' :: slashed parts :=
  List.append_assoc ..

theorem steps_slashed (h : ∀ part ∈ front, '/' ∉ part) :
    steps (slashed front) = front.filter (!isIdle ·) := by
  induction front with
  | nil => rfl
  | cons part front ih =>
    obtain ⟨free, others⟩ := List.forall_mem_cons.mp h
    rw [slashed_cons, steps_append_cons, ih others, steps, pieces_of_not_mem free,
      ← List.filter_append, List.singleton_append]

/-- A path is cut before one of its parts. -/
theorem exists_of_pieces {name : List Char} (h : pieces path = front ++ name :: rest) :
    ∃ tail, path = slashed front ++ (name ++ tail) ∧ (rest = [] → tail = []) := by
  induction front generalizing path with
  | nil =>
    rcases (Text.of_split_eq_cons h).2 with ⟨rfl, -⟩ | ⟨c, behind, -, rfl, others⟩
    · exact ⟨[], (List.append_nil _).symm, fun _ => rfl⟩
    · exact ⟨c :: behind, rfl, fun none => absurd (others.trans none) (Text.split_ne_nil _ _)⟩
  | cons part front ih =>
    rcases (Text.of_split_eq_cons h).2 with ⟨-, none⟩ | ⟨c, behind, separates, rfl, others⟩
    · exact absurd none (List.append_ne_nil_of_right_ne_nil _ (List.cons_ne_nil _ _))
    · obtain ⟨tail, rfl, last⟩ := ih others
      refine ⟨tail, ?_, last⟩
      rw [slashed_cons, List.append_assoc, List.cons_append, eq_of_beq separates]

theorem of_lastPart {after : List Char} {parts : List (List Char)}
    (h : lastPart after parts = some p) :
    ∃ idle front, parts = idle ++ p.name :: front ∧ (∀ part ∈ idle, isIdle part = true) ∧
      isIdle p.name = false ∧ p.before = slashed front.reverse := by
  induction parts generalizing after with
  | nil => cases h
  | cons part parts ih =>
    rw [lastPart] at h
    split at h
    · rename_i idle
      obtain ⟨others, front, rfl, allIdle, leads, before⟩ := ih h
      exact ⟨part :: others, front, rfl, List.forall_mem_cons.mpr ⟨idle, allIdle⟩, leads, before⟩
    · rename_i leads
      cases h
      exact ⟨[], parts, rfl, nofun, Bool.eq_false_iff.mpr leads, rfl⟩

theorem lastPart_ne_none {parts : List (List Char)} {part : List Char} (mem : part ∈ parts)
    (leads : isIdle part = false) (after : List Char) : lastPart after parts ≠ none := by
  induction parts generalizing after with
  | nil => cases mem
  | cons first parts ih =>
    rw [lastPart]
    split
    · rename_i idle
      refine ih ((List.mem_cons.mp mem).resolve_left ?_) _
      rintro rfl
      exact absurd (idle.symm.trans leads) (by decide)
    · exact Option.some_ne_none _

theorem locate?_of_reverse {last : List Char} {parts : List (List Char)}
    (back : (pieces path).reverse = last :: parts) :
    locate? path =
      (if isIdle last then lastPart last parts else some ⟨slashed parts.reverse, last, []⟩).filter
        fun p => p.name != ['.', '.'] := by
  have back : (Text.split (· == '/') path).reverse = last :: parts := back
  rw [locate?, back]
  rfl

/-- The file name of a path is looked for at its last part that leads somewhere. -/
theorem exists_last {part : List Char} (mem : part ∈ pieces path) (leads : isIdle part = false) :
    ∃ (p : Located) (front idle : List (List Char)),
      locate? path = (some p).filter (fun p => p.name != ['.', '.']) ∧
        pieces path = front ++ p.name :: idle ∧ (∀ part ∈ idle, isIdle part = true) ∧
        isIdle p.name = false ∧ p.before = slashed front := by
  have mem := List.mem_reverse.mpr mem
  cases back : (pieces path).reverse with
  | nil =>
    rw [back] at mem
    cases mem
  | cons last parts =>
    rw [back] at mem
    have unfolded := locate?_of_reverse back
    have whole : pieces path = parts.reverse ++ [last] := by
      rw [← List.reverse_reverse (pieces path), back, List.reverse_cons]
    split at unfolded
    · rename_i idle
      have mem : part ∈ parts := (List.mem_cons.mp mem).resolve_left fun same =>
        absurd ((same ▸ idle).symm.trans leads) (by decide)
      obtain ⟨p, found⟩ := Option.ne_none_iff_exists'.mp (lastPart_ne_none mem leads last)
      obtain ⟨others, front, rfl, allIdle, leads, before⟩ := of_lastPart found
      rw [found] at unfolded
      refine ⟨p, front.reverse, others.reverse ++ [last], unfolded, ?_, ?_, leads, before⟩
      · rw [whole, List.reverse_append, List.reverse_cons, List.append_assoc, List.append_assoc]
        rfl
      · rw [List.forall_mem_append, List.forall_mem_singleton]
        exact ⟨fun part hp => allIdle part (List.mem_reverse.mp hp), idle⟩
    · rename_i leads
      exact ⟨_, parts.reverse, [], unfolded, whole, fun _ none => absurd none List.not_mem_nil,
        Bool.eq_false_iff.mpr leads, rfl⟩

theorem isRooted_slashed {name : List Char} (free : '/' ∉ name) (leads : isIdle name = false)
    (front : List (List Char)) (tail : List Char) :
    isRooted (slashed front ++ (name ++ tail)) = isRooted (slashed front) := by
  cases front with
  | nil =>
    cases name with
    | nil => cases leads
    | cons c name =>
      rw [List.mem_cons, not_or] at free
      exact beq_false_of_ne fun same => free.1 (Option.some.inj same).symm
  | cons part front =>
    rw [slashed_cons]
    cases part <;> rfl

/-- The name in the address of a path is its file name, and what is in front of that leads to the
directory. -/
theorem exists_locate? {a : Address} (h : address? path = some a) :
    ∃ p, locate? path = some p ∧ p.name = a.name ∧ steps p.before = a.directory ∧
      isRooted p.before = a.rooted := by
  obtain ⟨whole, named, rooted⟩ := address?_eq_some_iff.mp h
  have mem : a.name ∈ steps path := whole ▸ List.mem_append_right _ List.mem_cons_self
  obtain ⟨mem, leads⟩ := List.mem_filter.mp mem
  obtain ⟨p, front, idle, located, parts, allIdle, leads, before⟩ :=
    exists_last mem ((Bool.not_eq_true' _).mp leads)
  have inPieces : ∀ part ∈ front ++ p.name :: idle, '/' ∉ part := fun part hp =>
    not_mem_of_mem_pieces (parts ▸ hp : part ∈ pieces path)
  have free : ∀ part ∈ front, '/' ∉ part := fun part hp =>
    inPieces part (List.mem_append_left _ hp)
  have nameFree : '/' ∉ p.name := inPieces _ (List.mem_append_right _ List.mem_cons_self)
  have walked : steps path = steps p.before ++ [p.name] := by
    have none : idle.filter (!isIdle ·) = [] := List.filter_eq_nil_iff.mpr fun part hp => by
      rw [allIdle part hp]
      decide
    rw [before, steps_slashed free, steps, parts, List.filter_append, List.filter_cons, leads, none]
    rfl
  obtain ⟨directory, name⟩ := List.append_inj' (walked.symm.trans whole) rfl
  have name : p.name = a.name := (List.cons.inj name).1
  refine ⟨p, ?_, name, directory, ?_⟩
  · rw [located, Option.filter_some, if_pos (by rw [name, bne_iff_ne]; exact named)]
  · obtain ⟨tail, text, -⟩ := exists_of_pieces parts
    rw [rooted, text, isRooted_slashed nameFree leads, before]

end Located

/-! ## Another name in the directory -/

section Names

variable {path name : List Char}

/-- The separators and `.` in which a directory ends make no difference. -/
theorem trimDirectory_leads (back : List Char) :
    steps (trimDirectory back).reverse = steps back.reverse ∧
      isRooted (trimDirectory back).reverse = isRooted back.reverse := by
  have rooted (cs tail : List Char) (some : cs ≠ []) : isRooted (cs ++ tail) = isRooted cs := by
    rw [isRooted, isRooted, List.head?_append_of_ne_nil _ some]
  fun_induction trimDirectory back with
  | case1 c rest ih =>
    have split : ('/' :: c :: rest).reverse = (c :: rest).reverse ++ ['/'] := List.reverse_cons
    rw [ih.1, ih.2, split, rooted _ _ (by simp), steps_append_cons]
    exact ⟨(List.append_nil _).symm, rfl⟩
  | case2 rest ih =>
    have split : ('.' :: '/' :: rest).reverse = rest.reverse ++ '/' :: ['.'] := by
      rw [List.reverse_cons, List.reverse_cons, List.append_assoc]
      rfl
    have slash : ('/' :: rest).reverse = rest.reverse ++ ['/'] := List.reverse_cons
    rw [ih.1, ih.2, split, slash, steps_append_cons, steps_append_cons]
    refine ⟨rfl, ?_⟩
    cases rest.reverse <;> rfl
  | case3 => exact ⟨rfl, rfl⟩

theorem exists_pieces_join (directory name : List Char) :
    ∃ front, pieces (join directory name) = front ++ pieces name ∧
      front.filter (!isIdle ·) = steps directory := by
  unfold join
  split
  · rename_i bare
    rw [Bool.or_eq_true, List.isEmpty_iff, beq_iff_eq] at bare
    rcases bare with rfl | last
    · exact ⟨[], rfl, rfl⟩
    · obtain ⟨front, rfl⟩ := List.getLast?_eq_some_iff.mp last
      refine ⟨pieces front, ?_, ?_⟩
      · rw [List.append_assoc, List.singleton_append, pieces_append_cons]
      · rw [steps_append_cons]
        exact (List.append_nil _).symm
  · exact ⟨pieces directory, pieces_append_cons directory name, rfl⟩

theorem steps_join (directory name : List Char) :
    steps (join directory name) = steps directory ++ steps name := by
  obtain ⟨front, parts, leads⟩ := exists_pieces_join directory name
  rw [steps, parts, List.filter_append, leads]
  rfl

theorem isRooted_join (directory : List Char) (relative : isRooted name = false) :
    isRooted (join directory name) = isRooted directory := by
  cases directory with
  | nil => exact relative
  | cons c directory =>
    unfold join
    split <;> rfl

/-- Another name in the directory that a path leads to. -/
theorem withName_leads {a : Address} (h : address? path = some a)
    (relative : isRooted name = false) :
    steps (withName path name) = a.directory ++ steps name ∧
      isRooted (withName path name) = a.rooted ∧
      ∃ front, pieces (withName path name) = front ++ pieces name := by
  obtain ⟨p, located, -, directory, rooted⟩ := exists_locate? h
  obtain ⟨sameSteps, sameRoot⟩ := trimDirectory_leads p.before.reverse
  obtain ⟨front, parts, -⟩ := exists_pieces_join (trimDirectory p.before.reverse).reverse name
  rw [List.reverse_reverse] at sameSteps sameRoot
  rw [withName, located]
  dsimp only
  rw [steps_join, isRooted_join _ relative, sameSteps, sameRoot, directory]
  exact ⟨rfl, rooted, front, parts⟩

/-- A name without a separator is that of a file in the same directory. -/
theorem address?_withName {a : Address} (h : address? path = some a) (free : '/' ∉ name)
    (leads : isIdle name = false) (named : name ≠ ['.', '.']) :
    address? (withName path name) = some { a with name } := by
  have relative : isRooted name = false := by
    have same := isRooted_slashed free leads [] []
    rwa [List.append_nil] at same
  obtain ⟨walked, rooted, -⟩ := withName_leads h relative
  rw [steps_of_not_mem free leads] at walked
  exact address?_eq_some_iff.mpr ⟨walked, named, rooted.symm⟩

end Names

/-! ## Addresses in a tree of files -/

namespace Tree

variable (t : Tree)

/-- The directory that an address leads to. -/
def directory (a : Address) : Except PathFault (List String) :=
  (a.directory.map String.ofList).foldlM t.enter (if a.rooted then [] else t.home)

/-- A `.` on the way makes no difference. -/
theorem foldlM_enter (parts : List (List Char)) (start : List String) :
    ((parts.filter (!·.isEmpty)).map String.ofList).foldlM t.enter start =
      ((parts.filter (!isIdle ·)).map String.ofList).foldlM t.enter start := by
  induction parts generalizing start with
  | nil => rfl
  | cons part parts ih =>
    by_cases empty : part = []
    · subst empty
      exact ih start
    · by_cases dot : part = ['.']
      · subst dot
        exact ih start
      · have leads : isIdle part = false := by
          rw [isIdle, Bool.or_eq_false_iff, List.isEmpty_eq_false_iff, beq_eq_false_iff_ne]
          exact ⟨empty, dot⟩
        rw [List.filter_cons_of_pos (by simpa using empty),
          List.filter_cons_of_pos (by rw [leads]; rfl), List.map_cons, List.map_cons,
          List.foldlM_cons, List.foldlM_cons]
        exact congrArg _ (funext fun entered => ih entered)

variable {t} {path : String} {front : List (List Char)} {last : List Char}

/-- What a path names that ends in a part which is not empty. -/
theorem target_concat (h : pieces path.toList = front ++ [last]) (ne : last ≠ []) :
    t.target path =
      (((front.filter (!isIdle ·)).map String.ofList).foldlM t.enter
        (if isRooted path.toList then [] else t.home)).map fun directory =>
          if last = ['.'] ∨ last = ['.', '.'] then .directory
          else .entry (directory ++ [String.ofList last]) false := by
  have listed : (parts path).reverse =
      String.ofList last :: ((front.filter (!·.isEmpty)).map String.ofList).reverse := by
    have whole : parts path = ((front ++ [last]).filter (!·.isEmpty)).map String.ofList := by
      rw [← h]
      rfl
    rw [whole, List.filter_append, List.filter_singleton, List.isEmpty_eq_false_iff.mpr ne]
    simp only [Bool.not_false, cond_true, List.map_append, List.map_singleton, List.reverse_append,
      List.reverse_singleton, List.singleton_append]
  have ends : (path.toList.getLast? == some '/') = false := by
    obtain ⟨tail, text, none⟩ := exists_of_pieces h
    have mem : last ∈ pieces path.toList := h ▸ List.mem_append_right _ List.mem_cons_self
    have free := not_mem_of_mem_pieces mem
    rw [text, none rfl, List.append_nil, List.getLast?_append_of_ne_nil _ ne, beq_eq_false_iff_ne]
    exact fun same => free (List.mem_of_getLast? same)
  have dot : String.ofList last = "." ↔ last = ['.'] := String.ofList_inj
  have above : String.ofList last = ".." ↔ last = ['.', '.'] := String.ofList_inj
  rw [target, listed]
  dsimp only
  rw [List.reverse_reverse, foldlM_enter, ends]
  simp only [dot, above, isRooted, beq_iff_eq]
  generalize List.foldlM t.enter _ _ = walk
  cases walk <;> rfl

theorem place?_iff_target {place : List String} :
    t.place? path = some place ↔ t.target path = .ok (.entry place false) := by
  rw [place?]
  split
  · rename_i named
    rw [named, Option.some_inj, Except.ok.injEq, Target.entry.injEq, eq_self, and_true]
  · rename_i other
    exact iff_of_false (Option.some_ne_none place).symm fun named => other place named

/-- A path that names a file does not end in a separator. -/
theorem ne_nil_of_place? {place : List String} (h : t.place? path = some place)
    (parts : pieces path.toList = front ++ [last]) : last ≠ [] := by
  rintro rfl
  obtain ⟨tail, text, none⟩ := exists_of_pieces parts
  rw [none rfl, List.append_nil, List.append_nil] at text
  have ends : (path.toList.getLast? == some '/') = true ∨ path = "" := by
    cases front.eq_nil_or_concat with
    | inl empty =>
      rw [empty] at text
      exact .inr (String.toList_eq_nil_iff.mp text)
    | inr some =>
      obtain ⟨others, part, rfl⟩ := some
      refine .inl (beq_iff_eq.mpr ?_)
      rw [text, slashed, List.concat_eq_append, List.map_append, List.flatten_append,
        List.map_singleton, List.flatten_singleton, ← List.append_assoc, List.getLast?_concat]
  have named := place?_iff_target.mp h
  rw [target] at named
  split at named
  · split at named <;> cases named
  · rename_i listed
    obtain ⟨directory, -, named⟩ := Outcome.bind_eq_ok_iff.mp named
    rcases ends with ends | rfl
    · rw [ends] at named
      split at named <;> cases named
    · cases listed

/-- The address of a path says what file it names, if nothing follows the name in the path. -/
theorem place?_eq_some_iff {place : List String} :
    t.place? path = some place ↔
      ∃ a directory, address? path.toList = some a ∧ (pieces path.toList).getLast? = some a.name ∧
        t.directory a = .ok directory ∧ place = directory ++ [String.ofList a.name] := by
  obtain ⟨front, last, parts⟩ : ∃ front last, pieces path.toList = front ++ [last] :=
    ⟨_, _, (List.dropLast_append_getLast (Text.split_ne_nil _ _)).symm⟩
  have final : (pieces path.toList).getLast? = some last := by rw [parts, List.getLast?_concat]
  have address (leads : isIdle last = false) (named : last ≠ ['.', '.']) :
      address? path.toList = some ⟨isRooted path.toList, front.filter (!isIdle ·), last⟩ := by
    refine address?_eq_some_iff.mpr ⟨?_, named, rfl⟩
    rw [steps, parts, List.filter_append, List.filter_singleton, leads]
    rfl
  rw [final]
  constructor
  · intro h
    have ne := ne_nil_of_place? h parts
    rw [place?_iff_target, target_concat parts ne] at h
    obtain ⟨directory, walked, named⟩ := Outcome.map_eq_ok_iff.mp h
    split at named
    · cases named
    · rename_i other
      rw [not_or] at other
      cases named
      have leads : isIdle last = false := by
        rw [isIdle, Bool.or_eq_false_iff, List.isEmpty_eq_false_iff, beq_eq_false_iff_ne]
        exact ⟨ne, other.1⟩
      exact ⟨_, directory, address leads other.2, rfl, walked, rfl⟩
  · rintro ⟨a, directory, found, same, walked, rfl⟩
    obtain ⟨whole, named, -⟩ := address?_eq_some_iff.mp found
    rw [← Option.some.inj same] at whole named ⊢
    have leads : isIdle last = false := (Bool.not_eq_true' _).mp (List.mem_filter.mp
      (show last ∈ steps path.toList from whole ▸ List.mem_append_right _ List.mem_cons_self)).2
    obtain rfl := Option.some.inj (found.symm.trans (address leads named))
    have ne : last ≠ [] := by
      rintro rfl
      cases leads
    have other : ¬ (last = ['.'] ∨ last = ['.', '.']) := by
      rintro (rfl | rfl)
      · cases leads
      · exact named rfl
    rw [place?_iff_target, target_concat parts ne]
    exact Outcome.map_eq_ok_iff.mpr ⟨directory, walked, if_neg other⟩

end Tree

/-! ## The program beside its drawing -/

/-- The name of the program for a layer of a drawing. -/
def programName (drawing layer : List Char) : List Char :=
  stem drawing ++ '_' :: layer ++ ".gcode".toList

section Programs

variable {drawing layer : List Char}

/-- A stem is the beginning of its name, and not empty. -/
theorem exists_stem (ne : drawing ≠ []) :
    ∃ extension, drawing = stem drawing ++ extension ∧ stem drawing ≠ [] := by
  have parts := List.takeWhile_append_dropWhile (p := (· != '.')) (l := drawing.reverse)
  rw [stem, cutExtension]
  split
  · rename_i dot c rest behind
    have whole := congrArg List.reverse parts
    have cut : (dot :: c :: rest).reverse = (c :: rest).reverse ++ [dot] := List.reverse_cons
    rw [behind, List.reverse_append, cut, List.reverse_reverse, List.append_assoc] at whole
    exact ⟨_, whole.symm, by simp⟩
  · exact ⟨[], (List.append_nil _).symm, ne⟩

theorem mem_programName_iff (free : '/' ∉ drawing) (ne : drawing ≠ []) :
    '/' ∈ programName drawing layer ↔ '/' ∈ layer := by
  obtain ⟨extension, whole, -⟩ := exists_stem ne
  have free : '/' ∉ stem drawing := fun mem => free (whole ▸ List.mem_append_left _ mem)
  have extension : '/' ∉ ".gcode".toList := by decide
  simp only [programName, List.mem_append, List.mem_cons, free, extension, false_or, or_false]
  exact or_iff_right (by decide)

theorem isRooted_programName (free : '/' ∉ drawing) (ne : drawing ≠ []) :
    isRooted (programName drawing layer) = false := by
  obtain ⟨extension, whole, some⟩ := exists_stem ne
  rw [whole] at free
  rw [programName, isRooted]
  cases first : stem drawing with
  | nil => exact absurd first some
  | cons c rest =>
    rw [first, List.cons_append, List.mem_cons, not_or] at free
    exact beq_false_of_ne fun same => free.1 (Option.some.inj same).symm

/-- It has an underscore in it, unlike the names that lead nowhere or out of a directory. -/
theorem programName_leads (drawing layer : List Char) :
    isIdle (programName drawing layer) = false ∧ programName drawing layer ≠ ['.', '.'] := by
  have mem : '_' ∈ programName drawing layer :=
    List.mem_append_left _ (List.mem_append_right _ List.mem_cons_self)
  have other {name : List Char} (absent : '_' ∉ name) : programName drawing layer ≠ name :=
    fun same => absent (same ▸ mem)
  rw [isIdle, Bool.or_eq_false_iff, List.isEmpty_eq_false_iff, beq_eq_false_iff_ne]
  exact ⟨⟨other (by decide), other (by decide)⟩, other (by decide)⟩

theorem programName_injective (drawing : List Char) :
    Function.Injective (programName drawing) := fun _ _ same =>
  List.cons.inj (List.append_cancel_left (List.append_cancel_right same)) |>.2

end Programs

variable {input layer : String} {drawing : Address}

theorem defaultOutput_eq (h : address? input.toList = some drawing) (layer : String) :
    (defaultOutput input (some layer)).toList =
      withName input.toList (programName drawing.name layer.toList) := by
  obtain ⟨p, located, name, -⟩ := exists_locate? h
  rw [defaultOutput, located]
  dsimp only [Option.map_some, Option.getD_some]
  rw [name, String.toList_ofList]
  rfl

/-- The program for a layer goes beside the drawing, under the stem of its name, an underscore and
the name of the layer, just if the name of the layer has no separator. The directory is then that
of the drawing in every tree of files, and no other layer goes to the same file. -/
theorem defaultOutput_isSibling (h : address? input.toList = some drawing) :
    (address? (defaultOutput input (some layer)).toList =
        some { drawing with name := programName drawing.name layer.toList } ↔
      '/' ∉ layer.toList) ∧
    ('/' ∉ layer.toList →
      (∀ (t : Tree) (place : List String), t.place? input = some place →
        t.place? (defaultOutput input (some layer)) =
          some (place.dropLast ++ [String.ofList (programName drawing.name layer.toList)])) ∧
      ∀ other : String, '/' ∉ other.toList → other ≠ layer →
        address? (defaultOutput input (some other)).toList ≠
          address? (defaultOutput input (some layer)).toList) := by
  have mem : drawing.name ∈ steps input.toList :=
    (address?_eq_some_iff.mp h).1 ▸ List.mem_append_right _ List.mem_cons_self
  have free := not_mem_of_mem_steps mem
  have ne : drawing.name ≠ [] := fun empty => by
    have leads := (List.mem_filter.mp mem).2
    rw [empty] at leads
    cases leads
  have sibling (layer : String) (plain : '/' ∉ layer.toList) :
      address? (defaultOutput input (some layer)).toList =
        some { drawing with name := programName drawing.name layer.toList } := by
    rw [defaultOutput_eq h]
    exact address?_withName h (mt (mem_programName_iff free ne).mp plain)
      (programName_leads _ _).1 (programName_leads _ _).2
  refine ⟨⟨fun found mem => ?_, sibling layer⟩, fun plain => ⟨fun t place named => ?_, ?_⟩⟩
  · -- A name has no separator in it.
    have last : programName drawing.name layer.toList ∈
        steps (defaultOutput input (some layer)).toList :=
      (address?_eq_some_iff.mp found).1 ▸ List.mem_append_right _ List.mem_cons_self
    exact not_mem_of_mem_steps last ((mem_programName_iff free ne).mpr mem)
  · obtain ⟨a, directory, found, -, walked, rfl⟩ := Tree.place?_eq_some_iff.mp named
    obtain rfl := Option.some.inj (h.symm.trans found)
    obtain ⟨-, -, front, parts⟩ := withName_leads h (isRooted_programName free ne)
    refine Tree.place?_eq_some_iff.mpr ⟨_, directory, sibling layer plain, ?_, walked, ?_⟩
    · rw [defaultOutput_eq h, parts, pieces_of_not_mem (mt (mem_programName_iff free ne).mp plain),
        List.getLast?_concat]
    · rw [List.dropLast_concat]
  · intro other otherPlain different same
    rw [sibling layer plain, sibling other otherPlain, Option.some_inj, Address.mk.injEq] at same
    exact different (String.toList_inj.mp (programName_injective _ same.2.2))

theorem defaultOutput_isSibling_dotted :
    let drawing : Address := ⟨false, ["art".toList], "logo.v2.svg".toList⟩
    let t := Tree.ofFiles ["home"] [("art/logo.v2.svg", "<svg/>")]
    address? "art/.//logo.v2.svg".toList = some drawing ∧
      address? (defaultOutput "art/.//logo.v2.svg" (some "Cut .5")).toList =
        some { drawing with name := "logo.v2_Cut .5.gcode".toList } ∧
      t.place? (defaultOutput "art/.//logo.v2.svg" (some "Cut .5")) =
        some ["home", "art", "logo.v2_Cut .5.gcode"] := by
  intro drawing t
  have address : address? "art/.//logo.v2.svg".toList = some drawing := by decide
  have sibling := @defaultOutput_isSibling _ "Cut .5" _ address
  have named : t.place? "art/.//logo.v2.svg" = some ["home", "art", "logo.v2.svg"] := by decide
  exact ⟨address, sibling.1.mpr (by decide), (sibling.2 (by decide)).1 t _ named⟩

/-- With a separator in its name a layer goes to another directory. -/
theorem not_defaultOutput_isSibling :
    ¬ ∀ (input layer : String) (drawing : Address), address? input.toList = some drawing →
      Text.trim layer.toList ≠ [] →
        address? (defaultOutput input (some layer)).toList =
          some { drawing with name := programName drawing.name layer.toList } := by
  intro claim
  have sibling := claim "art/logo.svg" "a/b" ⟨false, ["art".toList], "logo.svg".toList⟩
    (by decide) (by decide)
  exact absurd sibling (by decide)

end LaserCut.Files
