import LaserCut.Text.Fields

/-!
# Places in a text

A place in a text is counted in bytes, and lies between two characters. A list of characters that
ends in another one has such a place where the other one begins.

* `exists_pos`: the place where the rest of a text begins, as a position of the string;
* `slice?`, `slice?_eq`: the text between two offsets that are such places.
-/

namespace LaserCut.Text

theorem byteSize_append (cs ds : List Char) : byteSize (cs ++ ds) = byteSize cs + byteSize ds := by
  induction cs with
  | nil => exact (Nat.zero_add _).symm
  | cons c cs ih =>
    show c.utf8Size + byteSize (cs ++ ds) = c.utf8Size + byteSize cs + byteSize ds
    rw [ih, Nat.add_assoc]

theorem byteSize_cons (c : Char) (cs : List Char) : byteSize (c :: cs) = c.utf8Size + byteSize cs :=
  rfl

theorem utf8ByteSize_ofList (cs : List Char) : (String.ofList cs).utf8ByteSize = byteSize cs := by
  induction cs with
  | nil => rfl
  | cons c cs ih =>
    rw [String.ofList_cons, String.utf8ByteSize_append, String.utf8ByteSize_singleton, ih]
    rfl

/-- The bytes of the characters are those of the string. -/
theorem byteSize_toList (s : String) : byteSize s.toList = s.utf8ByteSize := by
  rw [← utf8ByteSize_ofList, String.ofList_toList]

theorem offset_append (kept after : List Char) : offset (kept ++ after) after = byteSize kept := by
  rw [offset, byteSize_append, Nat.add_sub_cancel]

variable {s : String} {kept after : List Char}

/-- Where the rest of a text begins there is a position of the text. -/
theorem exists_pos (h : s.toList = kept ++ after) :
    ∃ pos : s.Pos, pos.offset.byteIdx = offset s.toList after ∧
      pos.Splits (String.ofList kept) (String.ofList after) := by
  have whole : s = String.ofList kept ++ String.ofList after := by
    rw [← String.ofList_append, ← h, String.ofList_toList]
  have valid : String.Pos.Raw.IsValid s (String.ofList kept).rawEndPos :=
    String.Pos.Raw.isValid_iff_exists_append.mpr ⟨_, _, whole, rfl⟩
  refine ⟨s.pos _ valid, ?_, whole, rfl⟩
  rw [h, offset_append, ← utf8ByteSize_ofList]
  rfl

theorem copy_sliceTo {pos : s.Pos} (h : pos.Splits (String.ofList kept) (String.ofList after)) :
    (s.sliceTo pos).copy = String.ofList kept :=
  pos.splits.eq_left h

/-- The character at a place is the first one of the rest. -/
theorem get?_pos {pos : s.Pos} {c : Char}
    (h : pos.Splits (String.ofList kept) (String.ofList (c :: after))) : pos.get? = some c := by
  rw [String.ofList_cons] at h
  obtain ⟨_, same⟩ := h.exists_eq_singleton_append h.ne_endPos_of_singleton
  rw [String.Pos.get?_eq_some_get h.ne_endPos_of_singleton]
  exact congrArg some (String.singleton_append_inj.mp same).1.symm

/-! ## Slices -/

/-- The text between two offsets. There is none unless both are places of the text, and in order. -/
def slice? (s : String) (first last : Nat) : Option String := do
  let start ← s.pos? ⟨first⟩
  let finish ← s.pos? ⟨last⟩
  let slice ← s.slice? start finish
  return slice.copy

theorem pos?_offset (pos : s.Pos) : s.pos? pos.offset = some pos := by
  have valid : String.Pos.Raw.isValidForSlice s.toSlice pos.offset = true :=
    String.Pos.Raw.isValidForSlice_eq_true_iff.mpr pos.toSlice.isValidForSlice
  rw [String.pos?, String.Slice.pos?, dif_pos valid]
  rfl

/-- A part of a text is what is between its two ends. -/
theorem slice?_eq {before part after : List Char} {first last : Nat}
    (h : s.toList = before ++ (part ++ after)) (hf : first = byteSize before)
    (hl : last = byteSize (before ++ part)) : slice? s first last = some (String.ofList part) := by
  obtain ⟨start, startsAt, splits⟩ := exists_pos h
  obtain ⟨finish, endsAt, splits'⟩ := exists_pos (h.trans (List.append_assoc ..).symm)
  rw [h, offset_append, ← hf] at startsAt
  rw [h, ← List.append_assoc, offset_append, ← hl] at endsAt
  rw [String.ofList_append] at splits splits'
  obtain ⟨ordered, copy⟩ := String.copy_slice_eq_iff_splits.mpr ⟨_, _, splits, splits'⟩
  have start_eq : s.pos? ⟨first⟩ = some start := startsAt ▸ pos?_offset start
  have finish_eq : s.pos? ⟨last⟩ = some finish := endsAt ▸ pos?_offset finish
  simp only [slice?, start_eq, finish_eq, Option.bind_eq_bind, Option.bind_some, String.slice?,
    dif_pos ordered, copy]
  rfl

end LaserCut.Text
