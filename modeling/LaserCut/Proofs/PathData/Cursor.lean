import LaserCut.Binary64
import LaserCut.Proofs.PathData.Grammar
import LaserCut.Proofs.Text.Bytes

/-!
# Scanning numbers in place

The reader of path data once more, over the bytes of the text: a cursor runs through them, steps
over an exponent mark and back if no digits follow it, and the bytes of a number are converted in
the end. The cursor may start anywhere, inside a character too.

* `Scanner`, `Scanner.number`: the scanner, which leaves the cursor where it fails;
* `Scanner.map_read_rest`, `Scanner.scans_number`: the cursor goes where `Literal.read` goes;
* `Scanner.Mirrors`: between characters a scanner does what a reader does;
* `Scanner.binary64_readsLongest`: the scanner takes the longest numeral, and its cursor does not
  come to a stop inside a character.
-/

namespace LaserCut.PathData

/-- A scanner moves a cursor, which counts bytes and stays where the scanner fails. -/
abbrev Scanner (α : Type) := ExceptT PathError (StateM Nat) α

namespace Scanner

variable (d : String)

/-- The byte at the cursor, taken for the character of its code. -/
def peek (pos : Nat) : Option Char := d.toByteArray[pos]?.map Text.ofByte

theorem lt_of_peek {d : String} {pos : Nat} {p : Char → Bool} (h : (peek d pos).any p = true) :
    pos < d.utf8ByteSize := by
  rw [← String.size_toByteArray]
  refine Decidable.of_not_not fun beyond => ?_
  rw [peek, getElem?_neg d.toByteArray pos beyond] at h
  cases h

/-- Past one byte of the class `p`, if it is there. -/
def pass (p : Char → Bool) (pos : Nat) : Nat := if (peek d pos).any p then pos + 1 else pos

/-- Past all bytes of the class `p`. -/
def passAll (p : Char → Bool) (pos : Nat) : Nat :=
  if h : (peek d pos).any p = true then
    have := lt_of_peek h
    passAll p (pos + 1)
  else pos
termination_by d.utf8ByteSize - pos

def isSign (c : Char) : Bool := c == '-' || c == '+'

def isMark (c : Char) : Bool := c == 'e' || c == 'E'

/-- The number of digits after a point, if there is one, and the place behind them. -/
def fraction (point : Nat) : Nat × Nat :=
  if peek d point = some '.' then
    let last := passAll d Char.isDigit (point + 1)
    (last - (point + 1), last)
  else (0, point)

/-- Past a sign, digits and a point with digits, if there is a digit at all. -/
def mantissa? (start : Nat) : Option Nat :=
  let first := pass d isSign start
  let point := passAll d Char.isDigit first
  let (digits, last) := fraction d point
  if point - first = 0 ∧ digits = 0 then none else some last

/-- Past an exponent, and back to its mark if it has no digits. -/
def exponent (mark : Nat) : Nat :=
  if (peek d mark).any isMark then
    let first := pass d isSign (mark + 1)
    let last := passAll d Char.isDigit first
    if last - first = 0 then mark else last
  else mark

/-- The literal that a part of the bytes is, if it is UTF-8 and a literal from end to end. -/
def literal? (start finish : Nat) : Option Literal := do
  let text ← String.fromUTF8? (d.toByteArray.extract start finish)
  Literal.ofChars? text.toList

/-- A number, for the command that needs it. -/
def number (command : Char) : Scanner Literal := fun pos =>
  let start := passAll d isSeparator pos
  match mantissa? d start with
  | none => (.error (.expectedNumber command start), start)
  | some mark =>
    let finish := exponent d mark
    match literal? d start finish with
    | none => (.error (.expectedNumber command start), finish)
    | some literal => (.ok literal, finish)

/-- A number in binary64. -/
def binary64 (command : Char) : Scanner Float := Scalar.ofLiteral <$> number d command

/-! ## What is left -/

/-- The bytes from a place on. -/
def rest (pos : Nat) : List Char := (Text.bytes d.toList).drop pos

variable {d} {pos : Nat}

theorem length_rest (d : String) (pos : Nat) : (rest d pos).length = d.utf8ByteSize - pos := by
  rw [rest, List.length_drop, Text.length_bytes_toList]

theorem rest_add (d : String) (pos n : Nat) : rest d (pos + n) = (rest d pos).drop n := by
  rw [rest, rest, List.drop_drop]

theorem peek_eq (d : String) (pos : Nat) : peek d pos = (rest d pos).head? := by
  rw [rest, List.head?_drop, ← Text.map_ofByte_toByteArray, List.getElem?_map, peek,
    Array.getElem?_toList]
  refine congrArg _ ?_
  by_cases inside : pos < d.toByteArray.size
  · rw [getElem?_pos d.toByteArray pos inside, getElem?_pos d.toByteArray.data pos inside,
      ByteArray.getElem_eq_getElem_data]
  · rw [getElem?_neg d.toByteArray pos inside, getElem?_neg d.toByteArray.data pos inside]

/-- What the cursor sees and what is left at the place after it. -/
theorem peek_cases (d : String) (pos : Nat) :
    peek d pos = none ∧ rest d pos = [] ∨
      ∃ c, peek d pos = some c ∧ rest d pos = c :: rest d (pos + 1) := by
  rw [peek_eq, rest_add]
  cases left : rest d pos with
  | nil => exact .inl ⟨rfl, rfl⟩
  | cons c tail => exact .inr ⟨c, rfl, rfl⟩

theorem passAll_eq (p : Char → Bool) (pos : Nat) :
    passAll d p pos = pos + ((rest d pos).takeWhile p).length := by
  fun_induction passAll d p pos with
  | case1 pos held _ ih =>
    obtain ⟨none, -⟩ | ⟨c, seen, left⟩ := peek_cases d pos
    · rw [none] at held
      cases held
    · rw [seen, Option.any_some] at held
      rw [ih, left, List.takeWhile_cons_of_pos held, List.length_cons]
      omega
  | case2 pos held =>
    obtain ⟨-, left⟩ | ⟨c, seen, left⟩ := peek_cases d pos
    · rw [left]
      rfl
    · rw [seen, Option.any_some] at held
      rw [left, List.takeWhile_cons_of_neg held]
      rfl

theorem rest_passAll (p : Char → Bool) (pos : Nat) :
    rest d (passAll d p pos) = (rest d pos).dropWhile p := by
  rw [passAll_eq, rest_add]
  conv => lhs; arg 2; rw [← List.takeWhile_append_dropWhile (p := p) (l := rest d pos)]
  exact List.drop_left

theorem isSign_cases {c : Char} (h : isSign c = true) : c = '-' ∨ c = '+' := by
  simpa [isSign] using h

theorem rest_pass (pos : Nat) : rest d (pass d isSign pos) = (Literal.readSign (rest d pos)).2 := by
  obtain ⟨none, left⟩ | ⟨c, seen, left⟩ := peek_cases d pos
  · rw [pass, none, left]
    exact left
  · rw [pass, seen, left, Option.any_some]
    split
    case isTrue sign =>
      rcases isSign_cases sign with rfl | rfl <;> rfl
    case isFalse sign =>
      have unsigned : Literal.Unsigned (c :: rest d (pos + 1)) := by
        rintro _ ⟨⟩
        simpa [isSign] using sign
      have read := Literal.readSign_append none unsigned
      rw [signText, List.nil_append] at read
      rw [left, read]

theorem fraction_eq (point : Nat) :
    (fraction d point).1 = (Literal.readFraction (rest d point)).1.length ∧
      rest d (fraction d point).2 = (Literal.readFraction (rest d point)).2 := by
  obtain ⟨none, left⟩ | ⟨c, seen, left⟩ := peek_cases d point
  · rw [fraction, none, left]
    exact ⟨rfl, left⟩
  · rw [fraction, seen, left]
    split
    case isTrue mark =>
      obtain rfl := Option.some.inj mark
      refine ⟨?_, rest_passAll _ _⟩
      dsimp only
      rw [passAll_eq, Nat.add_sub_cancel_left]
      rfl
    case isFalse mark =>
      have none : Literal.readFraction (c :: rest d (point + 1)) =
          ([], c :: rest d (point + 1)) := by
        unfold Literal.readFraction
        split
        · rename_i same
          exact absurd (congrArg some (List.cons.inj same).1) mark
        · rfl
      rw [none]
      exact ⟨rfl, left⟩

theorem rest_exponent (mark : Nat) :
    rest d (exponent d mark) = (Literal.readExponent (rest d mark)).2 := by
  obtain ⟨none, left⟩ | ⟨c, seen, left⟩ := peek_cases d mark
  · rw [exponent, none, left]
    exact left
  · rw [exponent, seen, left, Option.any_some, Literal.readExponent]
    simp only [isMark, Bool.or_eq_true, beq_iff_eq, passAll_eq, Nat.add_sub_cancel_left,
      ← rest_pass, List.length_eq_zero_iff, List.isEmpty_iff]
    split
    · split
      · exact left
      · rw [← passAll_eq, rest_passAll]
    · exact left

/-- There is a mantissa unless there is no digit on either side of the point. -/
theorem mantissa?_eq (start : Nat) :
    mantissa? d start =
      (let body := (Literal.readSign (rest d start)).2
       let fraction := (Literal.readFraction (body.dropWhile Char.isDigit)).1
       if (body.takeWhile Char.isDigit).isEmpty && fraction.isEmpty then none
       else some (Scanner.fraction d (passAll d Char.isDigit (pass d isSign start))).2) := by
  have digits := (fraction_eq (d := d) (passAll d Char.isDigit (pass d isSign start))).1
  have whole := passAll_eq (d := d) Char.isDigit (pass d isSign start)
  rw [rest_passAll, rest_pass] at digits
  rw [rest_pass] at whole
  unfold mantissa?
  dsimp only
  refine if_congr ?_ rfl rfl
  rw [digits, whole, Nat.add_sub_cancel_left, List.length_eq_zero_iff, List.length_eq_zero_iff,
    Bool.and_eq_true, List.isEmpty_iff, List.isEmpty_iff]

/-- The cursor finds a mantissa exactly where a numeral is read, and ends where that ends. -/
theorem map_read_rest (start : Nat) :
    (Literal.read (rest d start)).map Prod.snd =
      (mantissa? d start).map fun mark => rest d (exponent d mark) := by
  have last := (fraction_eq (d := d) (passAll d Char.isDigit (pass d isSign start))).2
  rw [rest_passAll, rest_pass] at last
  rw [mantissa?_eq, Literal.read]
  dsimp only
  rw [apply_ite (Option.map _), apply_ite (Option.map _)]
  refine if_congr Iff.rfl rfl ?_
  rw [Option.map_some, Option.map_some, rest_exponent, last]

/-! ## The cursor stays within the text -/

theorem pass_le {p : Char → Bool} (inside : pos ≤ d.utf8ByteSize) :
    pass d p pos ≤ d.utf8ByteSize := by
  unfold pass
  split
  · rename_i held
    exact lt_of_peek held
  · exact inside

theorem passAll_le {p : Char → Bool} (inside : pos ≤ d.utf8ByteSize) :
    passAll d p pos ≤ d.utf8ByteSize := by
  have taken := (List.takeWhile_prefix p (l := rest d pos)).length_le
  rw [length_rest] at taken
  rw [passAll_eq]
  omega

theorem fraction_le (inside : pos ≤ d.utf8ByteSize) : (fraction d pos).2 ≤ d.utf8ByteSize := by
  unfold fraction
  split
  · rename_i point
    have seen : (peek d pos).any (· == '.') = true := by
      rw [point]
      rfl
    exact passAll_le (lt_of_peek seen)
  · exact inside

theorem mantissa?_le {mark : Nat} (inside : pos ≤ d.utf8ByteSize)
    (h : mantissa? d pos = some mark) : mark ≤ d.utf8ByteSize := by
  unfold mantissa? at h
  dsimp only at h
  split at h
  · cases h
  · cases h
    exact fraction_le (passAll_le (pass_le inside))

theorem exponent_le (inside : pos ≤ d.utf8ByteSize) : exponent d pos ≤ d.utf8ByteSize := by
  unfold exponent
  split
  · rename_i held
    dsimp only
    split
    · exact inside
    · exact passAll_le (pass_le (lt_of_peek held))
  · exact inside

/-! ## The bytes of a numeral -/

theorem isAscii_of_isSeparator (c : Char) (h : isSeparator c = true) : Text.IsAscii c := by
  have mem := isSeparator_iff.mp h
  simp only [List.mem_cons, List.not_mem_nil, or_false] at mem
  rcases mem with rfl | rfl | rfl | rfl | rfl | rfl <;> decide

theorem isAscii_of_le {c last : Char} (h : c.val ≤ last.val) (ascii : Text.IsAscii last) :
    Text.IsAscii c :=
  Nat.lt_of_le_of_lt (UInt32.le_iff_toNat_le.mp h) ascii

theorem isAscii_of_isAlpha {c : Char} (h : c.isAlpha = true) : Text.IsAscii c := by
  have h : (decide (c.val ≥ 'A'.val ∧ c.val ≤ 'Z'.val) ||
      (c.val ≥ 'a'.val && c.val ≤ 'z'.val)) = true := h
  simp only [Bool.or_eq_true, Bool.and_eq_true, decide_eq_true_eq] at h
  rcases h with upper | lower
  · exact isAscii_of_le upper.2 (by decide)
  · exact isAscii_of_le lower.2 (by decide)

theorem isAscii_of_isDigit {c : Char} (h : c.isDigit = true) : Text.IsAscii c := by
  have h : (c.val ≥ '0'.val && c.val ≤ '9'.val) = true := h
  rw [Bool.and_eq_true, decide_eq_true_eq, decide_eq_true_eq] at h
  exact isAscii_of_le h.2 (by decide)

theorem isAscii_of_isLiteralChar {c : Char} (h : isLiteralChar c = true) : Text.IsAscii c := by
  simp only [isLiteralChar, Char.isAlphanum, Bool.or_eq_true, beq_iff_eq] at h
  rcases h with (((alpha | digit) | rfl) | rfl) | rfl
  · exact isAscii_of_isAlpha alpha
  · exact isAscii_of_isDigit digit
  all_goals decide

theorem isAscii_of_mem_text {n : Numeral} (c : Char) (h : c ∈ n.text) : Text.IsAscii c :=
  isAscii_of_isLiteralChar (isLiteralChar_of_mem_text h)

/-- The bytes between two places. -/
structure Between (d : String) (start finish : Nat) (front : List Char) : Prop where
  eq_append : rest d start = front ++ rest d finish
  eq_add : start + front.length = finish

namespace Between

variable {start middle finish : Nat} {front more : List Char}

theorem refl (d : String) (pos : Nat) : Between d pos pos [] := ⟨rfl, rfl⟩

theorem trans (first : Between d start middle front) (next : Between d middle finish more) :
    Between d start finish (front ++ more) where
  eq_append := by rw [first.eq_append, next.eq_append, List.append_assoc]
  eq_add := by rw [List.length_append, ← Nat.add_assoc, first.eq_add, next.eq_add]

/-- ASCII characters are the bytes of a string, which consists of them. -/
theorem fromUTF8?_extract (h : Between d start finish front)
    (ascii : ∀ c ∈ front, Text.IsAscii c) :
    String.fromUTF8? (d.toByteArray.extract start finish) = some (String.ofList front) := by
  refine Text.fromUTF8?_eq_some ascii ?_
  have length : finish - start = front.length := Nat.sub_eq_of_eq_add' h.eq_add.symm
  have taken : (rest d start).take (finish - start) = front := by
    rw [h.eq_append, length, List.take_left]
  rw [ByteArray.data_extract, Array.toList_extract, List.extract_eq_take_drop, List.map_take,
    List.map_drop, Text.map_ofByte_toByteArray]
  exact taken

/-- The place behind ASCII characters is not inside a character. -/
theorem isValid (h : Between d start finish front) (ascii : ∀ c ∈ front, Text.IsAscii c)
    (inside : start ≤ d.utf8ByteSize) :
    finish = start ∨ String.Pos.Raw.IsValid d ⟨finish⟩ := by
  obtain ⟨split, ordered⟩ := h
  rcases List.eq_nil_or_concat front with rfl | ⟨init, c, rfl⟩
  · exact .inl ordered.symm
  · -- The last byte passed is a character of the text, and the cursor is behind it.
    rw [List.concat_eq_append] at *
    have whole : Text.bytes d.toList =
        ((Text.bytes d.toList).take start ++ init) ++ c :: rest d finish := by
      rw [List.append_assoc, List.append_cons, ← split]
      exact (List.take_append_drop start _).symm
    have hc : Text.IsAscii c := ascii c (List.mem_append_right _ List.mem_cons_self)
    obtain ⟨kept, after, parts, before, -⟩ := Text.of_bytes_eq_append_cons hc whole
    have last : finish = Text.byteSize (kept ++ [c]) := by
      have single : Text.bytes [c] = [c] := Text.bytes_cons_of_isAscii hc []
      rw [← Text.length_bytes, Text.bytes_append, ← before, single]
      simp only [List.length_append, List.length_take, Text.length_bytes_toList] at ordered ⊢
      omega
    rw [List.append_cons] at parts
    exact .inr (last ▸ Text.isValid_byteSize parts)

end Between

theorem between_passAll (p : Char → Bool) (pos : Nat) :
    Between d pos (passAll d p pos) ((rest d pos).takeWhile p) where
  eq_append := by rw [rest_passAll, List.takeWhile_append_dropWhile]
  eq_add := (passAll_eq p pos).symm

/-! ## Numbers -/

/-- The bytes from `start` to `finish` are the longest numeral at `start`. -/
structure NumeralAt (d : String) (n : Numeral) (start finish : Nat) : Prop where
  longest : n.Longest (rest d start) (rest d finish)
  eq_add : start + n.text.length = finish
  le_size : finish ≤ d.utf8ByteSize

namespace NumeralAt

variable {n : Numeral} {start finish : Nat} (h : NumeralAt d n start finish)

include h

theorem between : Between d start finish n.text := ⟨h.longest.eq_append, h.eq_add⟩

theorem fromUTF8?_eq :
    String.fromUTF8? (d.toByteArray.extract start finish) = some (String.ofList n.text) :=
  h.between.fromUTF8?_extract isAscii_of_mem_text

theorem literal?_eq : literal? d start finish = some n.value := by
  rw [literal?, h.fromUTF8?_eq]
  show Literal.ofChars? (String.ofList n.text).toList = _
  rw [String.toList_ofList, Literal.ofChars?_text]

end NumeralAt

theorem numeralAt_of_longest {n : Numeral} {start finish : Nat}
    (h : n.Longest (rest d start) (rest d finish)) (inside : start ≤ d.utf8ByteSize)
    (within : finish ≤ d.utf8ByteSize) : NumeralAt d n start finish := by
  have size := congrArg List.length h.eq_append
  rw [List.length_append, length_rest, length_rest] at size
  exact ⟨h, by omega, within⟩

/-- The scanner takes the longest numeral behind the separators, or there is none. -/
inductive Scans (d : String) (command : Char) (start : Nat) :
    Except PathError Literal × Nat → Prop
  | number {n : Numeral} {finish : Nat} : NumeralAt d n start finish →
    Scans d command start (.ok n.value, finish)
  | missing : (∀ (n : Numeral) (tail : List Char), rest d start ≠ n.text ++ tail) →
    Scans d command start (.error (.expectedNumber command start), start)

theorem scans_number (command : Char) (inside : pos ≤ d.utf8ByteSize) :
    Scans d command (passAll d isSeparator pos) (number d command pos) := by
  have start := passAll_le (p := isSeparator) inside
  have read := map_read_rest (d := d) (passAll d isSeparator pos)
  unfold number
  dsimp only
  split
  case h_1 none =>
    rw [none] at read
    exact .missing (Literal.read_eq_none_iff.mp (Option.map_eq_none_iff.mp read))
  case h_2 mark some =>
    rw [some] at read
    obtain ⟨⟨l, left⟩, read, same⟩ := Option.map_eq_some_iff.mp read
    obtain ⟨n, longest, -⟩ := Literal.read_eq_some_iff.mp read
    dsimp only at same
    rw [same] at longest
    have found := numeralAt_of_longest longest start (exponent_le (mantissa?_le start some))
    rw [found.literal?_eq]
    exact .number found

/-! ## Between characters -/

theorem rest_byteSize {kept cs : List Char} (h : d.toList = kept ++ cs) :
    rest d (Text.byteSize kept) = Text.bytes cs := by
  rw [rest, h, Text.bytes_append, ← Text.length_bytes, List.drop_left]

/-- A place is known by what is left behind it. -/
theorem eq_byteSize {kept after : List Char} {next : Nat} (h : d.toList = kept ++ after)
    (left : rest d next = Text.bytes after) (inside : next ≤ d.utf8ByteSize) :
    next = Text.byteSize kept := by
  have size := congrArg List.length left
  have whole := congrArg Text.byteSize h
  rw [length_rest, Text.length_bytes] at size
  rw [Text.byteSize_toList, Text.byteSize_append] at whole
  omega

/-- The longest numeral among the bytes is the longest one of the text. -/
theorem longest_of_bytes {n : Numeral} {cs left : List Char} (h : n.Longest (Text.bytes cs) left) :
    ∃ after, left = Text.bytes after ∧ n.Longest cs after := by
  obtain ⟨after, rfl, rfl⟩ := Text.of_bytes_eq_append isAscii_of_mem_text h.eq_append
  refine ⟨after, rfl, rfl, fun m tail same => ?_⟩
  have bound : (Text.bytes after).length ≤ (Text.bytes tail).length := by
    refine h.le_of_append m _ ?_
    rw [same, Text.bytes_append, Text.bytes_eq_self isAscii_of_mem_text]
  rcases List.suffix_or_suffix_of_suffix (same ▸ List.suffix_append n.text after)
    (List.suffix_append m.text tail) with shorter | ⟨s, rfl⟩
  · exact shorter.length_le
  · rw [Text.bytes_append, List.length_append] at bound
    have none : Text.bytes s = [] := List.eq_nil_of_length_eq_zero (by omega)
    obtain rfl := Text.of_bytes_eq_nil none
    exact Nat.le_refl _

theorem byteSize_le {kept cs : List Char} (h : d.toList = kept ++ cs) :
    Text.byteSize kept ≤ d.utf8ByteSize := by
  rw [← Text.byteSize_toList, h, Text.byteSize_append]
  exact Nat.le_add_right _ _

/-- The separators behind a place are skipped to another one. -/
theorem exists_skipped {kept cs : List Char} (h : d.toList = kept ++ cs) :
    ∃ read, d.toList = read ++ skipSeparators cs ∧
      passAll d isSeparator (Text.byteSize kept) = Text.byteSize read := by
  obtain ⟨seps, -, split⟩ := exists_separators cs
  have parts : d.toList = (kept ++ seps) ++ skipSeparators cs := by
    rw [h, List.append_assoc, ← split]
  refine ⟨_, parts, eq_byteSize parts ?_ (passAll_le (byteSize_le h))⟩
  rw [rest_passAll, rest_byteSize h, Text.dropWhile_bytes isAscii_of_isSeparator]
  rfl

/-- A scanner that comes to the outcome of a reader: it has the same value and is where the rest of
the text begins, or it fails with the same error. -/
inductive Matches (d : String) {α : Type} :
    Except PathError (α × List Char) → Except PathError α × Nat → Prop
  | ok {a : α} {read after : List Char} : d.toList = read ++ after →
    Matches d (.ok (a, after)) (.ok a, Text.byteSize read)
  | error (e : PathError) (finish : Nat) : Matches d (.error e) (.error e, finish)

/-- The scanner does between any two characters what the reader does on the characters behind. -/
def Mirrors (d : String) {α : Type} (r : Reader α) (s : Scanner α) : Prop :=
  ∀ kept cs, d.toList = kept ++ cs → Matches d (r cs) (s (Text.byteSize kept))

theorem mirrors_number (command : Char) :
    Mirrors d (PathData.number d.toList command) (number d command) := by
  intro kept cs h
  obtain ⟨read, parts, start⟩ := exists_skipped h
  have scans := scans_number command (byteSize_le h)
  rw [start] at scans
  unfold PathData.number
  dsimp only
  generalize number d command (Text.byteSize kept) = result at scans
  cases scans with
  | @number n finish found =>
    have longest := found.longest
    rw [rest_byteSize parts] at longest
    obtain ⟨after, left, longest⟩ := longest_of_bytes longest
    rw [Literal.read_eq_some_iff.mpr ⟨n, longest, rfl⟩]
    rw [longest.eq_append, ← List.append_assoc] at parts
    rw [eq_byteSize parts left found.le_size]
    exact .ok parts
  | missing none =>
    have missing : Literal.read (skipSeparators cs) = Option.none :=
      Literal.read_eq_none_iff.mpr fun n tail same => none n (Text.bytes tail) (by
        rw [rest_byteSize parts, same, Text.bytes_append, Text.bytes_eq_self isAscii_of_mem_text])
    rw [missing]
    dsimp only
    rw [parts, Text.offset_append]
    exact .error _ _

theorem map_apply {α β : Type} (f : α → β) (s : Scanner α) (pos : Nat) :
    (f <$> s) pos = ((s pos).1.map f, (s pos).2) := by
  simp only [Functor.map, ExceptT.map, ExceptT.mk, bind, StateT.bind]
  cases s pos with
  | mk outcome finish => cases outcome <;> rfl

/-- What is scanned as a number at the byte `pos`, where the separators end at `start` and the
cursor stops at `finish`. -/
structure ReadsLongest (d : String) (command : Char) (pos start : Nat)
    (outcome : Except PathError Float) (finish : Nat) : Prop where
  skipped : rest d start = skipSeparators (rest d pos)
  ordered : pos ≤ start ∧ start ≤ finish ∧ finish ≤ d.utf8ByteSize
  ok_iff (x : Float) : outcome = .ok x ↔
    ∃ n : Numeral, n.Longest (rest d start) (rest d finish) ∧ Scalar.ofLiteral n.value = x
  error_iff (e : PathError) : outcome = .error e ↔
    e = .expectedNumber command start ∧
      ∀ (n : Numeral) (tail : List Char), rest d start ≠ n.text ++ tail
  /-- Nothing but separators is passed where there is no number. -/
  stays {e : PathError} : outcome = .error e → finish = start
  /-- The bytes of a number are those of a string, which is a literal from end to end. -/
  converts (n : Numeral) : n.Longest (rest d start) (rest d finish) →
    String.fromUTF8? (d.toByteArray.extract start finish) = some (String.ofList n.text) ∧
      Literal.ofChars? n.text = some n.value
  boundary : finish = pos ∨ String.Pos.Raw.IsValid d ⟨finish⟩

/-- Separators and further ASCII characters are passed to a boundary. -/
theorem isValid_of_skipped {front : List Char} {finish : Nat} (inside : pos ≤ d.utf8ByteSize)
    (ascii : ∀ c ∈ front, Text.IsAscii c)
    (h : Between d (passAll d isSeparator pos) finish front) :
    finish = pos ∨ String.Pos.Raw.IsValid d ⟨finish⟩ := by
  refine ((between_passAll isSeparator pos).trans h).isValid (fun c hc => ?_) inside
  rcases List.mem_append.mp hc with separator | further
  · exact isAscii_of_isSeparator c (List.all_eq_true.mp List.all_takeWhile c separator)
  · exact ascii c further

theorem le_passAll (p : Char → Bool) (pos : Nat) : pos ≤ passAll d p pos :=
  passAll_eq (d := d) p pos ▸ Nat.le_add_right _ _

theorem Scans.readsLongest {command : Char} {result : Except PathError Literal × Nat}
    (inside : pos ≤ d.utf8ByteSize) (h : Scans d command (passAll d isSeparator pos) result) :
    ReadsLongest d command pos (passAll d isSeparator pos) (result.1.map Scalar.ofLiteral)
      result.2 := by
  have start := passAll_le (p := isSeparator) inside
  cases h with
  | @number n finish found =>
    refine
      { skipped := rest_passAll _ _
        ordered := ⟨le_passAll _ _, Nat.le.intro found.eq_add, found.le_size⟩
        ok_iff := fun x => ⟨fun same => ⟨n, found.longest, Except.ok.inj same⟩, ?_⟩
        error_iff := fun e => ⟨nofun, fun none => absurd found.longest.eq_append (none.2 n _)⟩
        stays := nofun
        converts := fun m longest => ?_
        boundary := isValid_of_skipped inside isAscii_of_mem_text found.between }
    · rintro ⟨m, longest, rfl⟩
      have same := (Literal.read_eq_some_iff.mpr ⟨m, longest, rfl⟩).symm.trans
        (Literal.read_eq_some_iff.mpr ⟨n, found.longest, rfl⟩)
      rw [(Prod.mk.inj (Option.some.inj same)).1]
      rfl
    · have other := numeralAt_of_longest longest start found.le_size
      exact ⟨other.fromUTF8?_eq, Literal.ofChars?_text m⟩
  | missing none =>
    exact
      { skipped := rest_passAll _ _
        ordered := ⟨le_passAll _ _, Nat.le_refl _, start⟩
        ok_iff := fun x => ⟨nofun, fun ⟨n, longest, _⟩ => absurd longest.eq_append (none n _)⟩
        error_iff := fun e =>
          ⟨fun same => ⟨(Except.error.inj same).symm, none⟩, fun same => congrArg _ same.1.symm⟩
        stays := fun _ => rfl
        converts := fun n longest => absurd longest.eq_append (none n _)
        boundary := isValid_of_skipped inside
          (fun _ mem => absurd mem List.not_mem_nil) (.refl _ _) }

/-- A number is scanned wherever the cursor stands, and between characters it is the number that
the reader reads. -/
theorem binary64_readsLongest (d : String) (command : Char) {pos : Nat}
    (inside : pos ≤ d.utf8ByteSize) :
    (∃ start, ReadsLongest d command pos start (binary64 d command pos).1
      (binary64 d command pos).2) ∧
    Mirrors d (PathData.number d.toList command) (number d command) := by
  refine ⟨⟨passAll d isSeparator pos, ?_⟩, mirrors_number command⟩
  rw [binary64, map_apply]
  exact (scans_number command inside).readsLongest inside

/-- A letter beyond ASCII, a separator, and a number before a mark without digits. -/
theorem binary64_readsLongest_dangling :
    2 ≤ "é,-1.5e+".utf8ByteSize ∧ (binary64 "é,-1.5e+" 'L' 2).2 = 7 ∧
      (∃ start, ReadsLongest "é,-1.5e+" 'L' 2 start (binary64 "é,-1.5e+" 'L' 2).1
        (binary64 "é,-1.5e+" 'L' 2).2) ∧
      Mirrors "é,-1.5e+" (PathData.number "é,-1.5e+".toList 'L') (number "é,-1.5e+" 'L') :=
  ⟨by decide +kernel, by decide +kernel, binary64_readsLongest _ _ (by decide +kernel)⟩

end Scanner
end LaserCut.PathData
