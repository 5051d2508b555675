import LaserCut.Files.Tree
import LaserCut.Proofs.Outcome

/-!
# Disks

What a program may rely on when it reads and writes files: a text that is read is in the file that
the path names, a write puts the text there and touches no other file, and a write that fails has no
effect.

* `Disk`, `Disk.access`: files with these laws, and the access that a program has to them;
* `Disk.IsWritten`: one file has a new text, all others are as they were;
* `Tree.disk`, `Tree.access_eq`: the tree of files in memory is such a disk.
-/

namespace LaserCut.Files

/-- Files, in states of the disk. Reading and writing may fail for any reason. -/
structure Disk (σ π : Type) where
  /-- What is in the file at a place, if there is one. -/
  file? : σ → π → Option String
  /-- The place that a path names. -/
  place? : σ → String → Option π
  read : σ → String → Except String String
  write : σ → (path text : String) → Except String σ
  file_of_read {t : σ} {path text : String} : read t path = .ok text →
    ∃ place, place? t path = some place ∧ file? t place = some text
  file_of_write {t t' : σ} {path text : String} : write t path text = .ok t' →
    ∃ place, place? t path = some place ∧ file? t' place = some text ∧
      ∀ other, other ≠ place → file? t' other = file? t other

namespace Disk

variable {σ π : Type} (d : Disk σ π)

/-- A write that fails leaves the disk as it was. -/
def access : Access (StateM σ) where
  read path := fun t => (d.read t path, t)
  write path text := fun t =>
    match d.write t path text with
    | .ok t' => (.ok (), t')
    | .error reason => (.error reason, t)

section Access

variable {d} {t t' : σ} {path text reason : String}

theorem run_read {r : Except String String} (h : d.read t path = r) :
    (d.access.read path).run t = (r, t) :=
  congrArg (·, t) h

theorem run_write_ok (h : d.write t path text = .ok t') :
    (d.access.write path text).run t = (.ok (), t') := by
  dsimp only [access, StateT.run]
  rw [h]

theorem run_write_error (h : d.write t path text = .error reason) :
    (d.access.write path text).run t = (.error reason, t) := by
  dsimp only [access, StateT.run]
  rw [h]

end Access

/-- The path names a file that has the text after a write, and no other file has changed. -/
def IsWritten (before after : σ) (path text : String) : Prop :=
  ∃ place, d.place? before path = some place ∧ d.file? after place = some text ∧
    ∀ other, other ≠ place → d.file? after other = d.file? before other

end Disk

/-! ## Trees -/

namespace Tree

variable {t : Tree} {place other : List String} {content : String}

/-- The place of the file that a path names. -/
def place? (t : Tree) (path : String) : Option (List String) :=
  match t.target path with
  | .ok (.entry place false) => some place
  | _ => none

/-- Replacing the text of a file moves no file. -/
theorem find?_replace (files : List (List String × String)) :
    ((files.map fun (file, old) => if file == place then (file, content) else (file, old)).find?
      (·.1 == other)) = (files.find? (·.1 == other)).map fun (file, old) =>
        if other == place then (file, content) else (file, old) := by
  induction files with
  | nil => rfl
  | cons entry files ih =>
    obtain ⟨file, old⟩ := entry
    have kept : ((if file == place then (file, content) else (file, old)).1 == other) =
        (file == other) := by
      split <;> rfl
    rw [List.map_cons, List.find?_cons, List.find?_cons, kept]
    rcases here : file == other
    · exact ih
    · rw [eq_of_beq here]
      rfl

theorem content?_put : (t.put place content).content? place = some content := by
  unfold put
  split
  · rename_i there
    rw [content?, Option.isSome_map] at there
    obtain ⟨⟨file, old⟩, found⟩ := Option.isSome_iff_exists.mp there
    rw [content?, find?_replace, found, beq_self_eq_true]
    rfl
  · rename_i absent
    rw [content?, Option.isSome_map, Bool.not_eq_true, Option.isSome_eq_false_iff,
      Option.isNone_iff_eq_none] at absent
    rw [content?, List.find?_append, absent, Option.none_or, List.find?_singleton,
      if_pos (beq_self_eq_true place), Option.map_some]

theorem content?_put_of_ne (h : other ≠ place) :
    (t.put place content).content? other = t.content? other := by
  unfold put
  split
  · rw [content?, find?_replace, beq_false_of_ne h, Option.map_map]
    rfl
  · rw [content?, List.find?_append, List.find?_singleton,
      if_neg (by rw [beq_iff_eq]; exact h.symm), Option.or_none, content?]

/-- A path names the file that is read. -/
theorem exists_place_of_read {path text : String} (h : t.read path = .ok text) :
    ∃ place, t.place? path = some place ∧ t.content? place = some text := by
  obtain ⟨target, named, h⟩ := Outcome.bind_eq_ok_iff.mp h
  rw [place?, named]
  rcases target with _ | ⟨place, separated⟩
  · cases h
  · dsimp only at h
    split at h
    · cases h
    · split at h
      · rename_i found
        rcases separated
        · cases h
          exact ⟨place, rfl, found⟩
        · cases h
      · cases h

/-- A path names the file that is written. -/
theorem exists_place_of_write {t' : Tree} {path text : String} (h : t.write path text = .ok t') :
    ∃ place, t.place? path = some place ∧ t' = t.put place text := by
  obtain ⟨target, named, h⟩ := Outcome.bind_eq_ok_iff.mp h
  rw [place?, named]
  rcases target with _ | ⟨place, separated⟩
  · cases h
  · rcases separated
    · dsimp only at h
      split at h
      · cases h
      · cases h
        exact ⟨place, rfl, rfl⟩
    · cases h

/-- A tree is a disk. -/
def disk : Disk Tree (List String) where
  file? := content?
  place? := place?
  read t path := (t.read path).mapError PathFault.message
  write t path text := (t.write path text).mapError PathFault.message
  file_of_read h := exists_place_of_read (Outcome.mapError_eq_ok_iff.mp h)
  file_of_write h := by
    obtain ⟨place, named, rfl⟩ := exists_place_of_write (Outcome.mapError_eq_ok_iff.mp h)
    exact ⟨place, named, content?_put, fun _ => content?_put_of_ne⟩

theorem access_eq : access = disk.access := by
  have write : access.write = disk.access.write := by
    funext path text t
    show (access.write path text).run t = (disk.access.write path text).run t
    simp only [access, StateT.run_bind, StateT.run_get, pure_bind]
    rcases written : t.write path text with e | t'
    · have refused : disk.write t path text = .error e.message :=
        congrArg (Except.mapError PathFault.message) written
      exact (Disk.run_write_error refused).symm
    · have accepted : disk.write t path text = .ok t' :=
        congrArg (Except.mapError PathFault.message) written
      exact (Disk.run_write_ok accepted).symm
  show Access.mk access.read access.write = _
  rw [write]
  rfl

end Tree
end LaserCut.Files
