import LaserCut.Proofs.Text.Places
import Mathlib.Tactic.SplitIfs

/-!
# Bytes of a text

The bytes of a text in UTF-8, each taken for the character of its code. An ASCII character is its
own single byte, and no byte of another character is an ASCII character. So the bytes of a text are
told apart like its characters, as far as ASCII characters matter.

* `dropWhile_bytes`, `of_bytes_eq_append`: the bytes begin like the text does;
* `of_bytes_eq_append_cons`: an ASCII character among the bytes is one of the text, and stands at a
  place of it;
* `fromUTF8?_eq_some`: bytes that are ASCII characters are those of a string.
-/

namespace LaserCut.Text

/-- The character whose code is a byte. -/
def ofByte (b : UInt8) : Char := Char.ofNat b.toNat

/-- The bytes of a character. -/
def charBytes (c : Char) : List Char := (String.utf8EncodeChar c).map ofByte

/-- The bytes of a text. -/
def bytes (cs : List Char) : List Char := cs.flatMap charBytes

def IsAscii (c : Char) : Prop := c.toNat < 0x80

instance instDecidablePredIsAscii : DecidablePred IsAscii := fun c =>
  inferInstanceAs (Decidable (c.toNat < 0x80))

theorem toNat_ofByte (b : UInt8) : (ofByte b).toNat = b.toNat := by
  have small := b.toNat_lt
  rw [ofByte, Char.ofNat, dif_pos (.inl (by omega))]
  rfl

theorem ofByte_injective : Function.Injective ofByte := fun a b same =>
  UInt8.toNat_inj.mp (by rw [← toNat_ofByte a, same, toNat_ofByte])

/-! ## One character -/

theorem length_charBytes (c : Char) : (charBytes c).length = c.utf8Size := by
  rw [charBytes, List.length_map, String.length_utf8EncodeChar]

theorem charBytes_of_isAscii {c : Char} (h : IsAscii c) : charBytes c = [c] := by
  have code : c.val.toNat = c.toNat := rfl
  have below : c.toNat < 0x80 := h
  have same : ofByte (UInt8.ofNat c.toNat) = c := by
    rw [← Char.toNat_inj, toNat_ofByte, UInt8.toNat_ofNat', Nat.mod_eq_of_lt (by omega)]
  rw [charBytes, String.utf8EncodeChar, code, if_pos (by omega), List.map_singleton, same]

/-- No byte of a character beyond ASCII is an ASCII character. -/
theorem not_isAscii_of_mem_charBytes {c b : Char} (h : ¬ IsAscii c) (hb : b ∈ charBytes c) :
    ¬ IsAscii b := by
  obtain ⟨byte, mem, rfl⟩ := List.mem_map.mp hb
  have code : c.val.toNat = c.toNat := rfl
  rw [String.utf8EncodeChar, code] at mem
  have beyond : 0x80 ≤ c.toNat := Nat.le_of_not_lt h
  suffices 0x80 ≤ byte.toNat by
    rw [IsAscii, toNat_ofByte]
    omega
  split_ifs at mem
  · omega
  all_goals
    simp only [List.mem_cons, List.not_mem_nil, or_false] at mem
    rcases mem with rfl | rfl | rfl | rfl <;> rw [UInt8.toNat_ofNat'] <;> omega

/-! ## Texts -/

theorem bytes_cons (c : Char) (cs : List Char) : bytes (c :: cs) = charBytes c ++ bytes cs :=
  List.flatMap_cons

theorem bytes_append (cs ds : List Char) : bytes (cs ++ ds) = bytes cs ++ bytes ds :=
  List.flatMap_append

theorem bytes_cons_of_isAscii {c : Char} (h : IsAscii c) (cs : List Char) :
    bytes (c :: cs) = c :: bytes cs := by
  rw [bytes_cons, charBytes_of_isAscii h, List.singleton_append]

theorem bytes_eq_self {cs : List Char} (h : ∀ c ∈ cs, IsAscii c) : bytes cs = cs := by
  induction cs with
  | nil => rfl
  | cons c cs ih =>
    rw [bytes_cons_of_isAscii (h c List.mem_cons_self),
      ih fun d hd => h d (List.mem_cons_of_mem c hd)]

theorem length_bytes (cs : List Char) : (bytes cs).length = byteSize cs := by
  induction cs with
  | nil => rfl
  | cons c cs ih => rw [bytes_cons, List.length_append, length_charBytes, ih, byteSize_cons]

/-- The first byte of a character beyond ASCII is not an ASCII character. -/
theorem exists_bytes_eq_cons {c : Char} (h : ¬ IsAscii c) (cs : List Char) :
    ∃ b rest, bytes (c :: cs) = b :: rest ∧ ¬ IsAscii b := by
  obtain ⟨b, rest, split⟩ : ∃ b rest, charBytes c = b :: rest :=
    List.exists_cons_of_length_pos (length_charBytes c ▸ c.utf8Size_pos)
  refine ⟨b, rest ++ bytes cs, by rw [bytes_cons, split, List.cons_append], ?_⟩
  exact not_isAscii_of_mem_charBytes h (split ▸ List.mem_cons_self)

/-- A run of ASCII characters takes the same bytes. -/
theorem dropWhile_bytes {p : Char → Bool} (ascii : ∀ c, p c = true → IsAscii c) (cs : List Char) :
    (bytes cs).dropWhile p = bytes (cs.dropWhile p) := by
  induction cs with
  | nil => rfl
  | cons c cs ih =>
    by_cases hc : IsAscii c
    · rw [bytes_cons_of_isAscii hc, List.dropWhile_cons, List.dropWhile_cons, ih]
      split
      · rfl
      · rw [bytes_cons_of_isAscii hc]
    · obtain ⟨b, rest, split, beyond⟩ := exists_bytes_eq_cons hc cs
      rw [List.dropWhile_cons_of_neg fun held => hc (ascii c held), split,
        List.dropWhile_cons_of_neg fun held => beyond (ascii b held)]

/-- An ASCII character among the bytes is one of the text. -/
theorem of_bytes_eq_append_cons {cs front rest : List Char} {c : Char} (hc : IsAscii c)
    (h : bytes cs = front ++ c :: rest) :
    ∃ kept after, cs = kept ++ c :: after ∧ front = bytes kept ∧ rest = bytes after := by
  induction cs generalizing front with
  | nil => exact absurd h.symm (List.append_ne_nil_of_right_ne_nil _ (List.cons_ne_nil _ _))
  | cons d cs ih =>
    by_cases hd : IsAscii d
    · rw [bytes_cons_of_isAscii hd] at h
      cases front with
      | nil =>
        obtain ⟨rfl, rfl⟩ := List.cons.inj h
        exact ⟨[], cs, rfl, rfl, rfl⟩
      | cons e front =>
        obtain ⟨rfl, within⟩ := List.cons.inj h
        obtain ⟨kept, after, rfl, rfl, rfl⟩ := ih within
        exact ⟨d :: kept, after, rfl, (bytes_cons_of_isAscii hd kept).symm, rfl⟩
    · rw [bytes_cons] at h
      rcases List.append_eq_append_iff.mp h with ⟨s, rfl, within⟩ | ⟨s, split, behind⟩
      · obtain ⟨kept, after, rfl, rfl, rfl⟩ := ih within
        exact ⟨d :: kept, after, rfl, (bytes_cons d kept).symm, rfl⟩
      · cases s with
        | nil =>
          obtain ⟨kept, after, rfl, none, rfl⟩ := @ih [] behind.symm
          refine ⟨d :: kept, after, rfl, ?_, rfl⟩
          rw [bytes_cons, ← none, split, List.append_nil, List.append_nil]
        | cons b s =>
          obtain ⟨rfl, -⟩ := List.cons.inj behind
          have mem : c ∈ charBytes d := split ▸ List.mem_append_right _ List.mem_cons_self
          exact absurd hc (not_isAscii_of_mem_charBytes hd mem)

theorem of_bytes_eq_nil {cs : List Char} (h : bytes cs = []) : cs = [] := by
  cases cs with
  | nil => rfl
  | cons c cs =>
    have size := congrArg List.length h
    rw [bytes_cons, List.length_append, length_charBytes] at size
    exact absurd size (Nat.ne_of_gt (Nat.add_pos_left c.utf8Size_pos _))

/-- The text begins with the ASCII characters that its bytes begin with. -/
theorem of_bytes_eq_append {cs front rest : List Char} (ascii : ∀ c ∈ front, IsAscii c)
    (h : bytes cs = front ++ rest) : ∃ after, cs = front ++ after ∧ rest = bytes after := by
  induction front generalizing cs with
  | nil => exact ⟨cs, rfl, h.symm⟩
  | cons c front ih =>
    obtain ⟨kept, after, rfl, none, behind⟩ :=
      @of_bytes_eq_append_cons cs [] _ c (ascii c List.mem_cons_self) h
    obtain rfl := of_bytes_eq_nil none.symm
    obtain ⟨after, rfl, rfl⟩ := ih (fun d hd => ascii d (List.mem_cons_of_mem c hd)) behind.symm
    exact ⟨after, rfl, rfl⟩

/-! ## Strings -/

theorem map_ofByte_toByteArray (s : String) :
    s.toByteArray.data.toList.map ofByte = bytes s.toList := by
  have encoded : s.toByteArray = s.toList.utf8Encode := by
    rw [← String.toByteArray_ofList, String.ofList_toList]
  rw [encoded, List.utf8Encode, List.data_toByteArray, List.map_flatMap]
  rfl

theorem length_bytes_toList (s : String) : (bytes s.toList).length = s.utf8ByteSize := by
  rw [length_bytes, byteSize_toList]

/-- Where the rest of a text begins there is a boundary between its characters. -/
theorem isValid_byteSize {s : String} {kept after : List Char} (h : s.toList = kept ++ after) :
    String.Pos.Raw.IsValid s ⟨byteSize kept⟩ := by
  obtain ⟨pos, offset, -⟩ := exists_pos h
  rw [h, offset_append] at offset
  exact offset ▸ pos.isValid

/-- Bytes that are ASCII characters are those of a string. -/
theorem fromUTF8?_eq_some {a : ByteArray} {cs : List Char} (ascii : ∀ c ∈ cs, IsAscii c)
    (h : a.data.toList.map ofByte = cs) : String.fromUTF8? a = some (String.ofList cs) := by
  have same : a.data.toList = cs.flatMap String.utf8EncodeChar := by
    refine (List.map_inj_right fun _ _ same => ofByte_injective same).mp ?_
    rw [h, List.map_flatMap]
    exact (bytes_eq_self ascii).symm
  have encoded : a = cs.utf8Encode := by
    refine ByteArray.ext ?_
    rw [List.utf8Encode, List.data_toByteArray, ← same, Array.toArray_toList]
  rw [String.fromUTF8?, dif_pos (.intro cs encoded), Option.some_inj, ← String.toByteArray_inj,
    String.toByteArray_ofList]
  exact encoded

end LaserCut.Text
