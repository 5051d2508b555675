import LaserCut.Text.Fields

/-!
# Fields of a text

Pieces without a separator, joined by separators, are the fields of the whole. No digit and no
letter separates the numbers of a list. A trimmed text is what is left without the blanks at both
ends, and a text is cut at the first mark in it.
-/

namespace LaserCut.Text

variable {sep : Char → Bool} {piece : List Char}

theorem split_of_forall_not (h : ∀ c ∈ piece, sep c = false) : split sep piece = [piece] := by
  induction piece with
  | nil => rfl
  | cons c piece ih =>
    rw [split, h c List.mem_cons_self, if_neg Bool.false_ne_true,
      ih fun c hc => h c (List.mem_cons_of_mem _ hc)]

theorem split_ne_nil (sep : Char → Bool) (cs : List Char) : split sep cs ≠ [] := by
  cases cs with
  | nil => exact List.cons_ne_nil _ _
  | cons c cs =>
    rw [split]
    split
    · exact List.cons_ne_nil _ _
    · split <;> exact List.cons_ne_nil _ _

/-- A separator splits a text in two. -/
theorem split_append_separator {c : Char} (hc : sep c = true) (before rest : List Char) :
    split sep (before ++ c :: rest) = split sep before ++ split sep rest := by
  induction before with
  | nil =>
    show split sep (c :: rest) = [] :: split sep rest
    rw [split, if_pos hc]
  | cons a before ih =>
    rw [List.cons_append, split, split, ih]
    split
    · rfl
    · cases pieces : split sep before with
      | nil => exact absurd pieces (split_ne_nil sep before)
      | cons first others => rfl

theorem split_append_cons (h : ∀ c ∈ piece, sep c = false) {c : Char} (hc : sep c = true)
    (rest : List Char) : split sep (piece ++ c :: rest) = piece :: split sep rest := by
  rw [split_append_separator hc, split_of_forall_not h, List.singleton_append]

/-- The first piece ends where the text does or at a separator. -/
theorem of_split_eq_cons {cs : List Char} {pieces : List (List Char)}
    (h : split sep cs = piece :: pieces) :
    (∀ c ∈ piece, sep c = false) ∧ (cs = piece ∧ pieces = [] ∨
      ∃ c rest, sep c = true ∧ cs = piece ++ c :: rest ∧ split sep rest = pieces) := by
  induction cs generalizing piece with
  | nil =>
    cases h
    exact ⟨nofun, .inl ⟨rfl, rfl⟩⟩
  | cons a cs ih =>
    rw [split] at h
    split at h
    · rename_i separates
      cases h
      exact ⟨nofun, .inr ⟨a, cs, separates, rfl, rfl⟩⟩
    · rename_i inside
      cases split_cs : split sep cs with
      | nil => exact absurd split_cs (split_ne_nil sep cs)
      | cons first others =>
        rw [split_cs] at h
        cases h
        obtain ⟨free, parts⟩ := ih split_cs
        refine ⟨List.forall_mem_cons.mpr ⟨Bool.eq_false_iff.mpr inside, free⟩, ?_⟩
        rcases parts with ⟨rfl, rfl⟩ | ⟨c, rest, separates, rfl, behind⟩
        · exact .inl ⟨rfl, rfl⟩
        · exact .inr ⟨c, rest, separates, rfl, behind⟩

/-- No piece has a separator in it. -/
theorem not_sep_of_mem_split {cs : List Char} (mem : piece ∈ split sep cs) :
    ∀ c ∈ piece, sep c = false := by
  generalize pieces : split sep cs = all at mem
  induction all generalizing cs with
  | nil => cases mem
  | cons first others ih =>
    obtain ⟨free, parts⟩ := of_split_eq_cons pieces
    rcases List.mem_cons.mp mem with rfl | mem
    · exact free
    · rcases parts with ⟨_, rfl⟩ | ⟨c, rest, _, _, behind⟩
      · cases mem
      · exact ih behind mem

/-- Pieces without a separator, joined by one, are the pieces of the whole. -/
theorem split_intercalate {c : Char} (hc : sep c = true) {pieces : List (List Char)}
    (free : ∀ piece ∈ pieces, ∀ a ∈ piece, sep a = false) (ne : pieces ≠ []) :
    split sep ([c].intercalate pieces) = pieces := by
  induction pieces with
  | nil => exact absurd rfl ne
  | cons piece others ih =>
    have first := free piece List.mem_cons_self
    cases others with
    | nil => rw [List.intercalate_singleton, split_of_forall_not first]
    | cons next others =>
      rw [List.intercalate_cons_cons, List.append_assoc, List.singleton_append,
        split_append_cons first hc,
        ih (fun piece mem => free piece (List.mem_cons_of_mem _ mem)) (List.cons_ne_nil _ _)]

/-- The pieces between the places of one character, joined by it, are the whole. -/
theorem intercalate_split (mark : Char) (cs : List Char) :
    [mark].intercalate (split (· == mark) cs) = cs := by
  induction cs with
  | nil => rfl
  | cons c cs ih =>
    rw [split]
    split
    · rename_i same
      rw [List.intercalate_cons_of_ne_nil (split_ne_nil _ cs), ih, beq_iff_eq.mp same]
      rfl
    · cases pieces : split (· == mark) cs with
      | nil => exact absurd pieces (split_ne_nil _ cs)
      | cons piece others =>
        rw [pieces] at ih
        rw [← ih]
        cases others with
        | nil => rw [List.intercalate_singleton, List.intercalate_singleton]
        | cons next others => rw [List.intercalate_cons_cons, List.intercalate_cons_cons]; rfl

theorem fields_of_forall_not (h : ∀ c ∈ piece, sep c = false) (ne : piece ≠ []) :
    fields sep piece = [piece] := by
  rw [fields, split_of_forall_not h]
  simp [ne]

theorem fields_append_cons (h : ∀ c ∈ piece, sep c = false) (ne : piece ≠ []) {c : Char}
    (hc : sep c = true) (rest : List Char) :
    fields sep (piece ++ c :: rest) = piece :: fields sep rest := by
  rw [fields, split_append_cons h hc]
  simp [fields, ne]

theorem fields_cons {c : Char} (hc : sep c = true) (cs : List Char) :
    fields sep (c :: cs) = fields sep cs := by
  rw [fields, split, if_pos hc]
  rfl

/-- Separators in front make no difference. -/
theorem fields_append (h : ∀ c ∈ piece, sep c = true) (rest : List Char) :
    fields sep (piece ++ rest) = fields sep rest := by
  induction piece with
  | nil => rfl
  | cons c piece ih =>
    rw [List.cons_append, fields_cons (h c List.mem_cons_self),
      ih fun a ha => h a (List.mem_cons_of_mem _ ha)]

/-- A text that begins without a separator begins with its first field. -/
theorem exists_field {c : Char} (h : sep c = false) (cs : List Char) :
    ∃ field tail, c :: cs = field ++ tail ∧ (∀ a ∈ tail.head?, sep a = true) ∧
      fields sep (c :: cs) = field :: fields sep tail := by
  have whole := List.takeWhile_append_dropWhile (p := (!sep ·)) (l := c :: cs)
  have inside : ∀ a ∈ (c :: cs).takeWhile (!sep ·), sep a = false := fun a ha =>
    (Bool.not_eq_true' _).mp (List.all_eq_true.mp List.all_takeWhile a ha)
  have ne : (c :: cs).takeWhile (!sep ·) ≠ [] := by
    rw [List.takeWhile_cons_of_pos (by rw [h]; rfl)]
    exact List.cons_ne_nil _ _
  have outside := List.head?_dropWhile_not (!sep ·) (c :: cs)
  generalize (c :: cs).takeWhile (!sep ·) = field at whole inside ne
  generalize (c :: cs).dropWhile (!sep ·) = tail at whole outside
  refine ⟨field, tail, whole.symm, fun a ha => ?_, ?_⟩
  · rw [Option.mem_def.mp ha] at outside
    simpa using outside
  · rw [← whole]
    cases tail with
    | nil =>
      rw [List.append_nil, fields_of_forall_not inside ne]
      rfl
    | cons a tail =>
      have separates : sep a = true := by simpa using outside
      rw [fields_append_cons inside ne separates, fields_cons separates]

theorem exists_separators (sep : Char → Bool) (cs : List Char) :
    ∃ gap, (∀ c ∈ gap, sep c = true) ∧ cs = gap ++ cs.dropWhile sep :=
  ⟨cs.takeWhile sep, fun c hc => List.all_eq_true.mp List.all_takeWhile c hc,
    List.takeWhile_append_dropWhile.symm⟩

/-- A text without fields has separators alone. -/
theorem forall_of_fields_eq_nil {cs : List Char} (h : fields sep cs = []) :
    ∀ c ∈ cs, sep c = true := by
  obtain ⟨gap, separators, whole⟩ := exists_separators sep cs
  have outside := List.head?_dropWhile_not sep cs
  generalize cs.dropWhile sep = rest at whole outside
  subst whole
  rw [fields_append separators] at h
  cases rest with
  | nil =>
    rw [List.append_nil]
    exact separators
  | cons c rest =>
    have inside : sep c = false := by simpa using outside
    obtain ⟨_, _, _, _, some⟩ := exists_field inside rest
    exact absurd (some.symm.trans h) (List.cons_ne_nil _ _)

/-- The first field of a text stands behind separators, and ends where the text does or at another
one. -/
theorem exists_of_fields_eq_cons {cs field : List Char} {others : List (List Char)}
    (h : fields sep cs = field :: others) :
    ∃ gap tail, cs = gap ++ (field ++ tail) ∧ (∀ c ∈ gap, sep c = true) ∧
      (∀ c ∈ tail.head?, sep c = true) ∧ fields sep tail = others := by
  obtain ⟨gap, separators, whole⟩ := exists_separators sep cs
  have outside := List.head?_dropWhile_not sep cs
  generalize cs.dropWhile sep = rest at whole outside
  subst whole
  rw [fields_append separators] at h
  cases rest with
  | nil => cases h
  | cons c rest =>
    have inside : sep c = false := by simpa using outside
    obtain ⟨first, tail, split, ends, some⟩ := exists_field inside rest
    obtain ⟨rfl, rfl⟩ := List.cons.inj (some.symm.trans h)
    exact ⟨gap, tail, by rw [split], separators, ends, rfl⟩

/-! ## Separators of lists -/

theorem isListSeparator_ofNat_digit : ∀ n < 58, 48 ≤ n →
    isListSeparator (Char.ofNat n) = false := by decide

theorem isListSeparator_of_isDigit {c : Char} (h : c.isDigit = true) :
    isListSeparator c = false := by
  simp only [Char.isDigit, Bool.and_eq_true, decide_eq_true_eq, UInt32.le_iff_toNat_le] at h
  rw [← Char.ofNat_toNat c]
  exact isListSeparator_ofNat_digit _ (Nat.lt_succ_of_le h.2) h.1

theorem isListSeparator_ofNat_letter : ∀ n < 123, 65 ≤ n →
    isListSeparator (Char.ofNat n) = false := by decide

theorem isListSeparator_of_isAlpha {c : Char} (h : c.isAlpha = true) :
    isListSeparator c = false := by
  have h : (decide ('A'.val ≤ c.val ∧ c.val ≤ 'Z'.val) ||
      ('a'.val ≤ c.val && c.val ≤ 'z'.val)) = true := h
  simp only [Bool.or_eq_true, Bool.and_eq_true, decide_eq_true_eq, UInt32.le_iff_toNat_le] at h
  have lower : 65 ≤ c.toNat := h.elim And.left fun h => Nat.le_trans (by decide) h.1
  have upper : c.toNat ≤ 122 := h.elim (fun h => Nat.le_trans h.2 (by decide)) And.right
  rw [← Char.ofNat_toNat c]
  exact isListSeparator_ofNat_letter _ (Nat.lt_succ_of_le upper) lower

/-! ## Trimming -/

/-- A text that neither begins nor ends with a blank. -/
structure IsTrimmed (cs : List Char) : Prop where
  head : ∀ c ∈ cs.head?, isBlank c = false
  last : ∀ c ∈ cs.getLast?, isBlank c = false

/-- Separators behind a text that does not end in one are dropped. -/
theorem reverse_dropWhile_append {cs tail : List Char} (last : ∀ c ∈ cs.getLast?, sep c = false)
    (h : ∀ c ∈ tail, sep c = true) : ((cs ++ tail).reverse.dropWhile sep).reverse = cs := by
  have h : ∀ c ∈ tail.reverse, sep c = true := fun c hc => h c (List.mem_reverse.mp hc)
  rw [List.reverse_append, List.dropWhile_append_of_pos h]
  rw [← List.head?_reverse] at last
  cases reversed : cs.reverse with
  | nil => rw [List.reverse_eq_nil_iff.mp reversed]; rfl
  | cons c ds =>
    rw [reversed] at last
    rw [List.dropWhile_cons_of_neg (by rw [last c rfl]; exact Bool.false_ne_true), ← reversed,
      List.reverse_reverse]

theorem exists_reverse_dropWhile (sep : Char → Bool) (cs : List Char) :
    ∃ tail, (∀ c ∈ tail, sep c = true) ∧ cs = (cs.reverse.dropWhile sep).reverse ++ tail ∧
      ∀ c ∈ (cs.reverse.dropWhile sep).reverse.getLast?, sep c = false := by
  obtain ⟨tail, h, whole⟩ := exists_separators sep cs.reverse
  have outside := List.head?_dropWhile_not sep cs.reverse
  refine ⟨tail.reverse, fun c hc => h c (List.mem_reverse.mp hc), ?_, fun c hc => ?_⟩
  · rw [← List.reverse_append, ← whole, List.reverse_reverse]
  · rw [List.getLast?_reverse] at hc
    rw [Option.mem_def.mp hc] at outside
    simpa using outside

theorem exists_trimEnd (cs : List Char) :
    ∃ blanks, (∀ c ∈ blanks, isBlank c = true) ∧ cs = trimEnd cs ++ blanks ∧
      ∀ c ∈ (trimEnd cs).getLast?, isBlank c = false :=
  exists_reverse_dropWhile isBlank cs

/-- A trimmed text is what is left of it with blanks about it. -/
theorem trim_append {before cs after : List Char} (hb : ∀ c ∈ before, isBlank c = true)
    (h : IsTrimmed cs) (ha : ∀ c ∈ after, isBlank c = true) :
    trim (before ++ (cs ++ after)) = cs := by
  rw [trim, List.dropWhile_append_of_pos hb]
  cases cs with
  | nil =>
    rw [List.nil_append, ← List.append_nil after, List.dropWhile_append_of_pos ha]
    rfl
  | cons c cs =>
    have first : ¬ isBlank c = true := by rw [h.head c rfl]; exact Bool.false_ne_true
    rw [List.cons_append, List.dropWhile_cons_of_neg first]
    exact reverse_dropWhile_append h.last ha

theorem IsTrimmed.append {cs gap ds : List Char} (hc : IsTrimmed cs) (some : cs ≠ [])
    (hd : IsTrimmed ds) (others : ds ≠ []) : IsTrimmed (cs ++ (gap ++ ds)) where
  head := by
    cases cs with
    | nil => exact absurd rfl some
    | cons c cs => exact hc.head
  last := by
    rw [← List.append_assoc, List.getLast?_append]
    cases last : ds.getLast? with
    | none => exact absurd (List.getLast?_eq_none_iff.mp last) others
    | some c => exact fun _ mem => hd.last _ (last ▸ mem)

/-- A text is its trimmed form with blanks about it. -/
theorem exists_trim (cs : List Char) :
    ∃ before after, (∀ c ∈ before, isBlank c = true) ∧ (∀ c ∈ after, isBlank c = true) ∧
      cs = before ++ (trim cs ++ after) ∧ IsTrimmed (trim cs) := by
  obtain ⟨before, hb, whole⟩ := exists_separators isBlank cs
  have outside := List.head?_dropWhile_not isBlank cs
  obtain ⟨after, ha, split, last⟩ := exists_trimEnd (cs.dropWhile isBlank)
  refine ⟨before, after, hb, ha, whole.trans (congrArg _ split), ⟨fun c hc => ?_, last⟩⟩
  rw [trim] at hc
  rw [split, List.head?_append, Option.mem_def.mp hc] at outside
  simpa using outside

/-- The text is the other one with blanks about it, and that neither begins nor ends with one. -/
def TrimsTo (cs trimmed : List Char) : Prop :=
  ∃ before after, (∀ c ∈ before, isBlank c = true) ∧ (∀ c ∈ after, isBlank c = true) ∧
    cs = before ++ (trimmed ++ after) ∧ IsTrimmed trimmed

theorem trim_eq_iff {cs trimmed : List Char} : trim cs = trimmed ↔ TrimsTo cs trimmed := by
  constructor
  · rintro rfl
    exact exists_trim cs
  · rintro ⟨before, after, hb, ha, rfl, h⟩
    exact trim_append hb h ha

instance (cs trimmed : List Char) : Decidable (TrimsTo cs trimmed) :=
  decidable_of_iff _ trim_eq_iff

/-- Blanks about a text make no difference. -/
theorem trim_blanks {before after : List Char} (hb : ∀ c ∈ before, isBlank c = true)
    (ha : ∀ c ∈ after, isBlank c = true) (cs : List Char) :
    trim (before ++ (cs ++ after)) = trim cs := by
  obtain ⟨before', after', hb', ha', whole, trimmed⟩ := exists_trim cs
  refine trim_eq_iff.mpr ⟨before ++ before', after' ++ after, ?_, ?_, ?_, trimmed⟩
  · exact fun c mem => (List.mem_append.mp mem).elim (hb c) (hb' c)
  · exact fun c mem => (List.mem_append.mp mem).elim (ha' c) (ha c)
  · rw [← List.append_assoc (trim cs), List.append_assoc before, ← List.append_assoc before',
      ← whole]

/-- A text that does not begin with a blank keeps its first character. -/
theorem exists_trim_cons {c : Char} (h : isBlank c = false) (cs : List Char) :
    ∃ rest, trim (c :: cs) = c :: rest := by
  have inside : ¬ isBlank c = true := by rw [h]; exact Bool.false_ne_true
  obtain ⟨blanks, hb, whole, -⟩ := exists_trimEnd (c :: cs)
  rw [trim, List.dropWhile_cons_of_neg inside]
  cases trimmed : trimEnd (c :: cs) with
  | nil =>
    rw [trimmed, List.nil_append] at whole
    exact absurd (hb c (whole ▸ List.mem_cons_self)) inside
  | cons d rest =>
    rw [trimmed] at whole
    exact ⟨rest, by rw [(List.cons.inj whole).1]⟩

/-- Two texts with blanks between them, trimmed: the other one if one is blank, and else both with
blanks between them. -/
theorem trim_append_append (cs ds : List Char) {gap : List Char}
    (h : ∀ c ∈ gap, isBlank c = true) :
    trim cs = [] ∧ trim (cs ++ (gap ++ ds)) = trim ds ∨
      trim ds = [] ∧ trim (cs ++ (gap ++ ds)) = trim cs ∨
      trim cs ≠ [] ∧ ∃ between, (∀ c ∈ between, isBlank c = true) ∧
        trim (cs ++ (gap ++ ds)) = trim cs ++ (between ++ trim ds) := by
  have both {as bs : List Char} (ha : ∀ c ∈ as, isBlank c = true)
      (hb : ∀ c ∈ bs, isBlank c = true) : ∀ c ∈ as ++ bs, isBlank c = true := fun c hc =>
    (List.mem_append.mp hc).elim (ha c) (hb c)
  obtain ⟨before, after, hb, ha, first, trimmed⟩ := exists_trim cs
  obtain ⟨before', after', hb', ha', second, trimmed'⟩ := exists_trim ds
  have between := both ha (both h hb')
  have whole : cs ++ (gap ++ ds) =
      before ++ (trim cs ++ ((after ++ (gap ++ before')) ++ (trim ds ++ after'))) := by
    have parts : cs ++ (gap ++ ds) =
        (before ++ (trim cs ++ after)) ++ (gap ++ (before' ++ (trim ds ++ after'))) := by
      rw [← first, ← second]
    rw [parts]
    simp only [List.append_assoc]
  rw [whole]
  generalize after ++ (gap ++ before') = blanks at between
  by_cases empty : trim cs = []
  · refine .inl ⟨empty, ?_⟩
    rw [empty, List.nil_append, ← List.append_assoc, trim_append (both hb between) trimmed' ha']
  by_cases empty' : trim ds = []
  · refine .inr (.inl ⟨empty', ?_⟩)
    rw [empty', List.nil_append, trim_append hb trimmed (both between ha')]
  refine .inr (.inr ⟨empty, blanks, between, ?_⟩)
  rw [← List.append_assoc blanks, ← List.append_assoc (trim cs),
    trim_append hb (trimmed.append empty trimmed' empty') ha']

theorem isListSeparator_of_isBlank {c : Char} (h : isBlank c = true) :
    isListSeparator c = true := by
  rw [isListSeparator, h, Bool.or_true]

/-! ## Cutting in two -/

variable {mark : Char} {cs before after : List Char}

theorem cutAt_eq_none_iff : cutAt mark cs = none ↔ mark ∉ cs := by
  induction cs with
  | nil => simp [cutAt]
  | cons c cs ih =>
    unfold cutAt
    split
    · simp [*]
    · rename_i other
      rw [Option.map_eq_none_iff, ih, List.mem_cons, not_or]
      exact ⟨fun h => ⟨fun same => other same.symm, h⟩, And.right⟩

theorem cutAt_append_cons (h : mark ∉ before) (after : List Char) :
    cutAt mark (before ++ mark :: after) = some (before, after) := by
  induction before with
  | nil => rw [List.nil_append, cutAt, if_pos rfl]
  | cons c before ih =>
    rw [List.mem_cons, not_or] at h
    rw [List.cons_append, cutAt, if_neg (Ne.symm h.1), ih h.2]
    rfl

theorem of_cutAt_eq_some (h : cutAt mark cs = some (before, after)) :
    cs = before ++ mark :: after ∧ mark ∉ before := by
  induction cs generalizing before with
  | nil => cases h
  | cons c cs ih =>
    unfold cutAt at h
    split at h
    · rename_i same
      cases h
      rw [same]
      exact ⟨rfl, List.not_mem_nil⟩
    · rename_i other
      obtain ⟨⟨piece, rest⟩, cut, parts⟩ := Option.map_eq_some_iff.mp h
      cases parts
      obtain ⟨rfl, free⟩ := ih cut
      exact ⟨rfl, List.not_mem_cons_of_ne_of_not_mem (Ne.symm other) free⟩

end LaserCut.Text
