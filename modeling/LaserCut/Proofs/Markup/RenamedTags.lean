import Mathlib.Data.List.Nodup
import LaserCut.Proofs.Markup.Attributes
import LaserCut.Proofs.Markup.Renaming
import LaserCut.Proofs.Text.Fields

/-!
# Renaming a prefix in the text of a tag

The text between the angle brackets of a tag, with one prefix typed for another: names change, and
everything else stays as it stands, blanks and quotes included.

* `Renaming.attributes`, `Renaming.tagText`, `Renaming.closingText`, `Renaming.content`: the new
  texts;
* `Exchanged`: two texts that differ only by one prefix for the other, anywhere; such a change does
  not move the end of a tag (`scanTag_of_exchanged`);
* `read_tagText`: the new text of a tag is read as the tag with its names renamed;
* `isRetyped`: the same of all that may stand between angle brackets.
-/

namespace LaserCut.Markup

/-- What follows the name of an attribute up to its closing quote, and the text after that. -/
def assigned (cs : List Char) : Option (List Char × List Char) :=
  match cs.dropWhile (!isQuote ·) with
  | [] => none
  | q :: quoted =>
    (scan (fun () c => c == q) (fun _ _ => ()) () quoted).map fun (value, tail) =>
      (cs.takeWhile (!isQuote ·) ++ q :: (value ++ [q]), tail)

theorem length_lt_of_assigned {cs text tail : List Char} (h : assigned cs = some (text, tail)) :
    tail.length < cs.length := by
  have shorter := (List.dropWhile_suffix (!isQuote ·) (l := cs)).length_le
  unfold assigned at h
  split at h
  · cases h
  · rename_i q quoted hq
    rw [hq] at shorter
    obtain ⟨⟨value, rest⟩, closes, parts⟩ := Option.map_eq_some_iff.mp h
    cases parts
    have := length_lt_of_scan closes
    rw [List.length_cons] at shorter
    omega

theorem length_lt_of_attribute {cs rest text tail : List Char} {k : Char}
    (hk : cs.dropWhile isSpace = k :: rest)
    (ha : assigned (rest.dropWhile isKeyChar) = some (text, tail)) : tail.length < cs.length := by
  have h₁ := (List.dropWhile_suffix isSpace (l := cs)).length_le
  have h₂ := (List.dropWhile_suffix isKeyChar (l := rest)).length_le
  have h₃ := length_lt_of_assigned ha
  rw [hk, List.length_cons] at h₁
  omega

namespace Renaming

variable (r : Renaming)

/-- Attributes as they stand, with their names renamed. -/
def attributes (cs : List Char) : List Char :=
  match hk : cs.dropWhile isSpace with
  | [] => cs
  | k :: rest =>
    match ha : assigned (rest.dropWhile isKeyChar) with
    | none => cs
    | some (text, tail) =>
      have := length_lt_of_attribute hk ha
      cs.takeWhile isSpace ++ ((r.key (String.ofList (k :: rest.takeWhile isKeyChar))).toList ++
        (text ++ attributes tail))
termination_by cs.length

/-- The text of a start tag with its names renamed. -/
def tagText (cs : List Char) : List Char :=
  (r.name (String.ofList (cs.takeWhile (!isSpace ·)))).toList ++
    r.attributes (cs.dropWhile (!isSpace ·))

/-- The text of an end tag, after its `/`, with its name renamed. -/
def closingText (cs : List Char) : List Char :=
  (r.name (String.ofList (closingName cs))).toList ++ cs.drop (closingName cs).length

/-- The text between the angle brackets of a tag with its names renamed. -/
def content (cs : List Char) : List Char :=
  match cs with
  | '/' :: name => '/' :: r.closingText name
  | _ => if cs.getLast? = some '/' then r.tagText cs.dropLast ++ ['/'] else r.tagText cs

end Renaming

/-! ## Where a tag ends -/

/-- Two texts that differ by one prefix for the other, in any places. -/
inductive Exchanged (r : Renaming) : List Char → List Char → Prop
  | nil : Exchanged r [] []
  | same (c : Char) {cs ds : List Char} : Exchanged r cs ds → Exchanged r (c :: cs) (c :: ds)
  | swap {cs ds : List Char} :
    Exchanged r cs ds → Exchanged r (r.old.toList ++ cs) (r.new.toList ++ ds)

namespace Exchanged

variable {r : Renaming}

theorem refl : (cs : List Char) → Exchanged r cs cs
  | [] => .nil
  | c :: cs => .same c (refl cs)

theorem append {cs ds cs' ds' : List Char} (h : Exchanged r cs ds) (h' : Exchanged r cs' ds') :
    Exchanged r (cs ++ cs') (ds ++ ds') := by
  induction h with
  | nil => exact h'
  | same c _ ih => exact .same c ih
  | swap _ ih =>
    rw [List.append_assoc, List.append_assoc]
    exact .swap ih

theorem prefixed (rest : List Char) :
    Exchanged r (r.old.toList ++ rest) (r.new.toList ++ rest) := .swap (refl rest)

theorem name (name : String) : Exchanged r name.toList (r.name name).toList := by
  by_cases has : HasPrefix r.old name
  · obtain ⟨rest, rfl⟩ := has
    rw [Renaming.name_of_hasPrefix]
    simp only [String.toList_append, List.append_assoc]
    exact prefixed _
  · rw [Renaming.name_of_not_hasPrefix has]
    exact refl _

theorem key (name : String) : Exchanged r name.toList (r.key name).toList := by
  unfold Renaming.key
  split
  · rename_i declaration
    rw [declaration, String.toList_append, String.toList_append]
    have old := prefixed (r := r) []
    rw [List.append_nil, List.append_nil] at old
    exact (refl _).append old
  · exact Exchanged.name name

end Exchanged

/-- A scan for the end of a tag is outside quotes, or inside one of the two. -/
def IsOpenQuote (quote : Option Char) : Prop := ∀ q ∈ quote, q ∈ ['\'', '"']

/-- The quote that is open after a character. -/
def quoteAfter (quote : Option Char) (c : Char) : Option Char :=
  match quote with
  | some q => if c == q then none else some q
  | none => if c == '\'' || c == '"' then some c else none

theorem IsOpenQuote.after {quote : Option Char} (h : IsOpenQuote quote) (c : Char) :
    IsOpenQuote (quoteAfter quote c) := by
  intro q hq
  unfold quoteAfter at hq
  split at hq <;> split at hq
  · cases hq
  · cases hq
    exact h q rfl
  · rename_i opens
    cases hq
    simpa using opens
  · cases hq

/-- The end of a tag, from inside the given quote. -/
def scanQuoted : Option Char → List Char → Option (List Char × List Char) :=
  scan (fun quote c => quote.isNone && c == '>') quoteAfter

/-- A prefix has no quote and no end of a tag. -/
theorem scanQuoted_append {pfx : String} (h : IsPrefix pfx) {quote : Option Char}
    (hq : IsOpenQuote quote) (cs : List Char) :
    scanQuoted quote (pfx.toList ++ cs) =
      (scanQuoted quote cs).map fun (before, after) => (pfx.toList ++ before, after) := by
  have plain := h.plain
  generalize pfx.toList = ps at plain
  induction ps with
  | nil => simp
  | cons c ps ih =>
    obtain ⟨hc, plain⟩ := List.forall_mem_cons.mp plain
    simp only [reservedChars, List.mem_cons, List.not_mem_nil, or_false, not_or] at hc
    obtain ⟨-, -, -, -, -, -, -, -, gt, -, -, single, double⟩ := hc
    have stays : scanQuoted quote (c :: (ps ++ cs)) =
        (scanQuoted quote (ps ++ cs)).map fun (before, after) => (c :: before, after) := by
      cases quote with
      | none => simp [scanQuoted, scan, quoteAfter, gt, single, double]
      | some q =>
        have hq := hq q rfl
        simp only [List.mem_cons, List.not_mem_nil, or_false] at hq
        have ne : c ≠ q := by rcases hq with rfl | rfl <;> assumption
        simp [scanQuoted, scan, quoteAfter, ne]
    rw [List.cons_append, stays, ih plain, Option.map_map]
    rfl

theorem scanQuoted_of_exchanged {r : Renaming} {cs ds rest : List Char} (h : Exchanged r cs ds)
    (rest' : List Char) (quote : Option Char) (hq : IsOpenQuote quote)
    (ends : scanQuoted quote (cs ++ '>' :: rest) = some (cs, rest)) :
    scanQuoted quote (ds ++ '>' :: rest') = some (ds, rest') := by
  induction h generalizing quote with
  | nil =>
    cases quote with
    | none => rfl
    | some q =>
      obtain ⟨_, -, parts⟩ := Option.map_eq_some_iff.mp ends
      cases parts
  | @same c cs ds _ ih =>
    rw [List.cons_append] at ends ⊢
    unfold scanQuoted scan at ends ⊢
    split at ends
    · cases ends
    · rename_i goes
      rw [if_neg goes]
      obtain ⟨⟨before, after⟩, scanned, parts⟩ := Option.map_eq_some_iff.mp ends
      cases parts
      have next := ih _ (hq.after c) scanned
      unfold scanQuoted at next
      rw [next]
      rfl
  | swap _ ih =>
    rw [List.append_assoc, scanQuoted_append r.isPrefix_old hq] at ends
    obtain ⟨⟨before, after⟩, scanned, parts⟩ := Option.map_eq_some_iff.mp ends
    obtain ⟨same, rfl⟩ := Prod.mk.inj parts
    obtain rfl := List.append_cancel_left same
    rw [List.append_assoc, scanQuoted_append r.isPrefix_new hq, ih quote hq scanned]
    rfl

/-- One prefix for the other does not move the end of a tag. -/
theorem scanTag_of_exchanged {r : Renaming} {cs ds rest : List Char} (h : Exchanged r cs ds)
    (ends : scanTag (cs ++ '>' :: rest) = some (cs, rest)) (rest' : List Char) :
    scanTag (ds ++ '>' :: rest') = some (ds, rest') :=
  scanQuoted_of_exchanged h rest' none nofun ends

/-! ## Names -/

theorem IsPrefix.isKeyChar {pfx : String} (h : IsPrefix pfx) {c : Char} (hc : c ∈ pfx.toList) :
    isKeyChar c = true := by
  have plain := h.plain c hc
  simp only [reservedChars, List.mem_cons, List.not_mem_nil, or_false, not_or] at plain
  simp [Markup.isKeyChar, isSpace, plain]

/-- A name with a prefix may be typed with another. -/
theorem IsKey.name {r : Renaming} {name : String} (h : IsKey name.toList) :
    IsKey (r.name name).toList := by
  by_cases has : HasPrefix r.old name
  · obtain ⟨rest, rfl⟩ := has
    rw [Renaming.name_of_hasPrefix]
    obtain ⟨k, ks, text, -, keys⟩ := h
    simp only [String.toList_append, List.append_assoc] at text ⊢
    have later : ∀ c ∈ ":".toList ++ rest.toList, isKeyChar c = true := by
      rcases old : r.old.toList with _ | ⟨o, os⟩
      · exact absurd (String.toList_eq_nil_iff.mp old) r.isPrefix_old.ne_empty
      · rw [old, List.cons_append, List.cons.injEq] at text
        exact fun c hc => keys c (text.2 ▸ List.mem_append_right _ hc)
    rcases new : r.new.toList with _ | ⟨k', ks'⟩
    · exact absurd (String.toList_eq_nil_iff.mp new) r.isPrefix_new.ne_empty
    · have plain (c : Char) (hc : c ∈ k' :: ks') : isKeyChar c = true :=
        r.isPrefix_new.isKeyChar (new ▸ hc)
      refine ⟨k', ks' ++ (":".toList ++ rest.toList), List.cons_append,
        isSpace_of_isKeyChar (plain k' List.mem_cons_self), fun c hc => ?_⟩
      rcases List.mem_append.mp hc with hc | hc
      · exact plain c (List.mem_cons_of_mem _ hc)
      · exact later c hc
  · rwa [Renaming.name_of_not_hasPrefix has]

theorem IsKey.key {r : Renaming} {name : String} (h : IsKey name.toList) :
    IsKey (r.key name).toList := by
  unfold Renaming.key
  split
  · rw [String.toList_append]
    refine ⟨'x', "mlns:".toList ++ r.new.toList, rfl, rfl, fun c hc => ?_⟩
    rcases List.mem_append.mp hc with hc | hc
    · exact List.all_eq_true.mp (show "mlns:".toList.all isKeyChar = true by decide) c hc
    · exact r.isPrefix_new.isKeyChar hc
  · exact h.name

/-! ## Renamed attributes -/

section Renamed

variable {r : Renaming}

theorem assigned_append {text value : List Char} (h : IsAssigned text value) (tail : List Char) :
    assigned (text ++ tail) = some (text, tail) := by
  obtain ⟨gap, gap', q, hg, hg', hq, rfl, closes⟩ := h
  have plain {cs : List Char} (h : ∀ c ∈ cs, isSpace c = true) :
      ∀ c ∈ cs, (!isQuote c) = true := by
    intro c hc
    have space := h c hc
    cases quote : isQuote c with
    | false => rfl
    | true => rcases isQuote_iff.mp quote with rfl | rfl <;> cases space
  have before : ∀ c ∈ gap ++ '=' :: gap', (!isQuote c) = true := by
    intro c hc
    rcases List.mem_append.mp hc with hc | hc
    · exact plain hg c hc
    · rcases List.mem_cons.mp hc with rfl | hc
      · rfl
      · exact plain hg' c hc
  have shape : gap ++ '=' :: (gap' ++ q :: (value ++ [q])) ++ tail =
      (gap ++ '=' :: gap') ++ q :: (value ++ q :: tail) := by simp
  rw [shape, assigned, List.dropWhile_append_of_pos before, List.takeWhile_append_of_pos before,
    List.dropWhile_cons, List.takeWhile_cons, hq]
  simp [closes]

theorem attributes_of_spaces {cs : List Char} (h : ∀ c ∈ cs, isSpace c = true) :
    r.attributes cs = cs := by
  rw [Renaming.attributes]
  split
  · rfl
  · rename_i k rest hk
    rw [List.dropWhile_eq_nil_iff.mpr h] at hk
    cases hk

theorem attributes_append {spaces key text value : List Char}
    (hs : ∀ c ∈ spaces, isSpace c = true) (hk : IsKey key) (ht : IsAssigned text value)
    (tail : List Char) :
    r.attributes (spaces ++ (key ++ (text ++ tail))) =
      spaces ++ ((r.key (String.ofList key)).toList ++ (text ++ r.attributes tail)) := by
  obtain ⟨k, ks, rfl, hk, hks⟩ := hk
  have begins := dropWhile_spaces hs hk (ks ++ (text ++ tail))
  have spaced := takeWhile_spaces hs hk (ks ++ (text ++ tail))
  rw [List.cons_append, Renaming.attributes]
  split
  · rename_i nothing
    rw [begins] at nothing
    cases nothing
  · rename_i k' rest first
    obtain ⟨rfl, rfl⟩ := List.cons.inj (begins.symm.trans first)
    dsimp only
    split
    · rename_i nothing
      rw [dropWhile_key hks ht, assigned_append ht] at nothing
      cases nothing
    · rename_i text' tail' found
      rw [dropWhile_key hks ht, assigned_append ht] at found
      cases found
      rw [spaced, takeWhile_key hks ht]

/-- Renamed attributes are spelled by the renamed text. -/
theorem SpellsAttributes.renamed {attributes : List (String × String)} {cs : List Char}
    (h : SpellsAttributes attributes cs) :
    SpellsAttributes (attributes.map fun a => (r.key a.1, a.2)) (r.attributes cs) := by
  induction h with
  | nil blank =>
    rw [attributes_of_spaces blank]
    exact .nil blank
  | @cons spaces key text value tail attributes hs hk ht _ ih =>
    have hk' : IsKey (r.key (String.ofList key)).toList := .key (by rwa [String.toList_ofList])
    rw [attributes_append hs hk ht]
    have := SpellsAttributes.cons hs hk' ht ih
    rwa [String.ofList_toList] at this

theorem SpellsAttributes.exchanged {attributes : List (String × String)} {cs : List Char}
    (h : SpellsAttributes attributes cs) : Exchanged r cs (r.attributes cs) := by
  induction h with
  | nil blank =>
    rw [attributes_of_spaces blank]
    exact .refl _
  | @cons spaces key text value tail attributes hs hk ht _ ih =>
    rw [attributes_append hs hk ht]
    have named := Exchanged.key (r := r) (String.ofList key)
    rw [String.toList_ofList] at named
    exact (Exchanged.refl _).append (named.append ((Exchanged.refl _).append ih))

/-- The text of attributes ends as before. -/
theorem SpellsAttributes.getLast? {attributes : List (String × String)} {cs : List Char}
    (h : SpellsAttributes attributes cs) : (r.attributes cs).getLast? = cs.getLast? := by
  induction h with
  | nil blank => rw [attributes_of_spaces blank]
  | @cons spaces key text value tail attributes hs hk ht _ ih =>
    obtain ⟨c, cs, rfl, -⟩ := ht.exists_cons
    rw [attributes_append hs hk ht]
    -- the last character is that of the attributes after this one, or of its value
    simp only [List.getLast?_append, List.getLast?_cons, ih, Option.or_some, Option.some_or]

/-- The text of attributes begins as before, if they stand apart from the name of the tag. -/
theorem SpellsAttributes.head? {attributes : List (String × String)} {cs : List Char}
    (h : SpellsAttributes attributes cs) (apart : ∀ c ∈ cs.head?, isSpace c = true) :
    (r.attributes cs).head? = cs.head? := by
  cases h with
  | nil blank => rw [attributes_of_spaces blank]
  | @cons spaces key text value tail _ hs hk ht =>
    rw [attributes_append hs hk ht]
    cases spaces with
    | nil =>
      obtain ⟨k, ks, rfl, nonspace, -⟩ := hk
      rw [apart k rfl] at nonspace
      cases nonspace
    | cons c spaces => rfl

end Renamed

/-! ## Renamed tags -/

section Tags

variable {r : Renaming}

theorem getLast?_name (name : String) : (r.name name).toList.getLast? = name.toList.getLast? := by
  by_cases has : HasPrefix r.old name
  · obtain ⟨rest, rfl⟩ := has
    rw [Renaming.name_of_hasPrefix]
    simp only [String.toList_append, List.getLast?_append]
    cases rest.toList.getLast? <;> rfl
  · rw [Renaming.name_of_not_hasPrefix has]

theorem mem_head?_name {name : String} {c : Char} (h : c ∈ (r.name name).toList.head?) :
    c ∈ name.toList.head? ∨ c ∈ r.new.toList := by
  by_cases has : HasPrefix r.old name
  · obtain ⟨rest, rfl⟩ := has
    rw [Renaming.name_of_hasPrefix, String.toList_append, String.toList_append] at h
    rcases new : r.new.toList with _ | ⟨k, ks⟩
    · exact absurd (String.toList_eq_nil_iff.mp new) r.isPrefix_new.ne_empty
    · rw [new] at h
      obtain rfl := Option.some.inj h
      exact .inr List.mem_cons_self
  · rw [Renaming.name_of_not_hasPrefix has] at h
    exact .inl h

theorem isSpace_of_mem_name {name : String} (h : ∀ c ∈ name.toList, isSpace c = false) :
    ∀ c ∈ (r.name name).toList, isSpace c = false := by
  by_cases has : HasPrefix r.old name
  · obtain ⟨rest, rfl⟩ := has
    rw [Renaming.name_of_hasPrefix]
    simp only [String.toList_append, List.mem_append] at h ⊢
    rintro c ((hc | hc) | hc)
    · exact isSpace_of_isKeyChar (r.isPrefix_new.isKeyChar hc)
    · exact h c (.inl (.inr hc))
    · exact h c (.inr hc)
  · rwa [Renaming.name_of_not_hasPrefix has]

/-- The renamed text of a tag is read as the renamed tag. -/
theorem read_tagText {cs : List Char} {tag : Tag} (h : Tag.read cs = .ok tag)
    (fresh : ¬ tag.Mentions r.new) : Tag.read (r.tagText cs) = .ok (r.tag tag) := by
  obtain ⟨named, spelt, nodup⟩ := Tag.read_eq_ok_iff.mp h
  have nonspace : ∀ c ∈ (r.name tag.name).toList, isSpace c = false := by
    refine isSpace_of_mem_name fun c hc => ?_
    rw [named, String.toList_ofList] at hc
    simpa using List.all_eq_true.mp List.all_takeWhile c hc
  have apart := isSpace_head?_dropWhile cs
  have apart' : ∀ c ∈ (r.attributes (cs.dropWhile (!isSpace ·))).head?, isSpace c = true := by
    rwa [spelt.head? apart]
  obtain ⟨name, rest⟩ := span_name nonspace apart'
  have distinct : ((tag.attributes.map fun a => (r.key a.1, a.2)).map Prod.fst).Nodup := by
    have unmentioned {name : String} (mem : name ∈ tag.attributes.map Prod.fst) :
        ¬ HasPrefix r.new name ∧ name ≠ "xmlns:" ++ r.new := by
      obtain ⟨a, ha, rfl⟩ := List.mem_map.mp mem
      exact ⟨fun has => fresh (.inl (.inr ⟨a, ha, has⟩)), fun same => fresh (.inr ⟨a, ha, same⟩)⟩
    rw [List.map_map]
    rw [show (Prod.fst ∘ fun a : String × String => (r.key a.1, a.2)) = r.key ∘ Prod.fst from rfl,
      ← List.map_map]
    exact List.Nodup.map_on
      (fun a ha b hb => Renaming.key_inj (unmentioned ha) (unmentioned hb)) nodup
  refine Tag.read_eq_ok_iff.mpr ⟨?_, ?_, distinct⟩
  · rw [Renaming.tagText, ← named, name, String.ofList_toList]
    rfl
  · rw [Renaming.tagText, ← named, rest]
    exact spelt.renamed

theorem getLast?_tagText {cs : List Char} {tag : Tag} (h : Tag.read cs = .ok tag) :
    (r.tagText cs).getLast? = cs.getLast? := by
  obtain ⟨-, spelt, -⟩ := Tag.read_eq_ok_iff.mp h
  rw [Renaming.tagText, List.getLast?_append, getLast?_name, spelt.getLast?, String.toList_ofList,
    ← List.getLast?_append, List.takeWhile_append_dropWhile]

theorem exchanged_tagText {cs : List Char} {tag : Tag} (h : Tag.read cs = .ok tag) :
    Exchanged r cs (r.tagText cs) := by
  obtain ⟨-, spelt, -⟩ := Tag.read_eq_ok_iff.mp h
  have both := (Exchanged.name (r := r) (String.ofList (cs.takeWhile (!isSpace ·)))).append
    spelt.exchanged
  rwa [String.toList_ofList, List.takeWhile_append_dropWhile] at both

/-- A tag begins as before, or with the new prefix. -/
theorem mem_head?_tagText {cs : List Char} {tag : Tag} (h : Tag.read cs = .ok tag) {c : Char}
    (hc : c ∈ (r.tagText cs).head?) : c ∈ cs.head? ∨ c ∈ r.new.toList := by
  obtain ⟨-, spelt, -⟩ := Tag.read_eq_ok_iff.mp h
  have whole := List.takeWhile_append_dropWhile (p := (!isSpace ·)) (l := cs)
  rw [Renaming.tagText] at hc
  rcases named : (r.name (String.ofList (cs.takeWhile (!isSpace ·)))).toList with _ | ⟨k, ks⟩
  · -- a tag without a name, which begins with its attributes
    have empty : cs.takeWhile (!isSpace ·) = [] := by
      have last := getLast?_name (r := r) (String.ofList (cs.takeWhile (!isSpace ·)))
      rw [named, String.toList_ofList] at last
      exact List.getLast?_eq_none_iff.mp last.symm
    rw [named, List.nil_append, spelt.head? (isSpace_head?_dropWhile cs)] at hc
    rw [empty, List.nil_append] at whole
    rw [whole] at hc
    exact .inl hc
  · have first : c ∈ (r.name (String.ofList (cs.takeWhile (!isSpace ·)))).toList.head? := by
      rw [named] at hc ⊢
      exact hc
    refine (mem_head?_name first).imp_left fun mem => ?_
    rw [String.toList_ofList] at mem
    rw [← whole, List.head?_append, Option.mem_def.mp mem]
    rfl

/-! ## End tags -/

theorem trimEnd_append {cs spaces : List Char} (hs : ∀ c ∈ spaces, isSpace c = true)
    (hc : ∀ c ∈ cs.getLast?, isSpace c = false) : trimEnd (cs ++ spaces) = cs :=
  Text.reverse_dropWhile_append hc hs

theorem trimEnd_eq (cs : List Char) :
    ∃ spaces, (∀ c ∈ spaces, isSpace c = true) ∧ cs = trimEnd cs ++ spaces ∧
      ∀ c ∈ (trimEnd cs).getLast?, isSpace c = false :=
  Text.exists_reverse_dropWhile isSpace cs

/-- A name that is white space alone has no prefix. -/
theorem name_of_spaces {cs : List Char} (h : ∀ c ∈ cs, isSpace c = true) :
    r.name (String.ofList cs) = String.ofList cs := by
  refine Renaming.name_of_not_hasPrefix (Renaming.not_hasPrefix_of_bare fun mem => ?_)
  rw [String.toList_ofList] at mem
  exact absurd (h _ mem) (by decide)

theorem closingName_closingText (cs : List Char) :
    closingName (r.closingText cs) = (r.name (String.ofList (closingName cs))).toList ∧
      Exchanged r cs (r.closingText cs) := by
  obtain ⟨spaces, hs, whole, last⟩ := trimEnd_eq cs
  by_cases empty : trimEnd cs = []
  · have name : closingName cs = cs := by rw [closingName, empty]; rfl
    rw [empty, List.nil_append] at whole
    have unchanged : r.name (String.ofList cs) = String.ofList cs :=
      name_of_spaces (by rwa [whole])
    have same : r.closingText cs = cs := by
      rw [Renaming.closingText, name, unchanged]
      simp
    rw [same, name, unchanged, String.toList_ofList]
    exact ⟨rfl, .refl cs⟩
  · have name : closingName cs = trimEnd cs := by
      simp [closingName, empty]
    have rest : cs.drop (trimEnd cs).length = spaces :=
      (congrArg (List.drop _) whole).trans List.drop_left
    have text : r.closingText cs = (r.name (String.ofList (trimEnd cs))).toList ++ spaces := by
      rw [Renaming.closingText, name, rest]
    have renamed := getLast?_name (r := r) (String.ofList (trimEnd cs))
    rw [String.toList_ofList] at renamed
    have trimmed : trimEnd (r.closingText cs) = (r.name (String.ofList (trimEnd cs))).toList := by
      rw [text]
      exact trimEnd_append hs (by rwa [renamed])
    have nonempty : (r.name (String.ofList (trimEnd cs))).toList ≠ [] := fun nothing => by
      rw [nothing] at renamed
      exact empty (List.getLast?_eq_none_iff.mp renamed.symm)
    have exchanged : Exchanged r (trimEnd cs ++ spaces) (r.closingText cs) := by
      have := (Exchanged.name (r := r) (String.ofList (trimEnd cs))).append (Exchanged.refl spaces)
      rwa [String.toList_ofList, ← text] at this
    rw [← whole] at exchanged
    refine ⟨?_, exchanged⟩
    rw [closingName, trimmed, name]
    simp [nonempty]

/-! ## Texts between angle brackets -/

theorem content_of_tag {cs : List Char} (h : cs.head? ≠ some '/') :
    r.content cs =
      if cs.getLast? = some '/' then r.tagText cs.dropLast ++ ['/'] else r.tagText cs := by
  unfold Renaming.content
  split
  · exact absurd rfl h
  · rfl

theorem ofTag_of_tag {cs : List Char} (h : cs.head? ≠ some '/') :
    Event.ofTag cs =
      if cs.getLast? = some '/' then (Tag.read cs.dropLast).map .empty
      else (Tag.read cs).map .opening := by
  unfold Event.ofTag
  split
  · exact absurd rfl h
  · rfl

/-- What the text of a tag with its names renamed is: the renamed tag, in a text that begins as
before or with the new prefix, and differs only by the prefixes. -/
structure IsRetyped (r : Renaming) (cs : List Char) (event : Event) : Prop where
  read : Event.ofTag (r.content cs) = .ok (r.event event)
  exchanged : Exchanged r cs (r.content cs)
  begins : ∀ c ∈ (r.content cs).head?, c ∈ cs.head? ∨ c ∈ r.new.toList

theorem isRetyped_closing (name : List Char) :
    IsRetyped r ('/' :: name) (.closing (String.ofList (closingName name))) := by
  obtain ⟨named, exchanged⟩ := closingName_closingText (r := r) name
  have text : r.content ('/' :: name) = '/' :: r.closingText name := by rw [Renaming.content]
  refine ⟨?_, ?_, fun c hc => .inl ?_⟩
  · rw [text, Event.ofTag, named, String.ofList_toList, Renaming.event]
  · rw [text]
    exact .same '/' exchanged
  · rw [text, List.head?_cons] at hc
    rwa [List.head?_cons]

/-- A text that begins as before or with the new prefix is no end tag if it was none. -/
theorem head?_ne_slash {cs ds : List Char} (opening : cs.head? ≠ some '/')
    (begins : ∀ c ∈ ds.head?, c ∈ cs.head? ∨ c ∈ r.new.toList) : ds.head? ≠ some '/' := by
  intro same
  rcases begins _ same with mem | mem
  · exact opening mem
  · exact r.isPrefix_new.plain _ mem (by decide)

theorem isRetyped_opening {cs : List Char} {tag : Tag} (opening : cs.head? ≠ some '/')
    (last : cs.getLast? ≠ some '/') (read : Tag.read cs = .ok tag)
    (fresh : ¬ tag.Mentions r.new) : IsRetyped r cs (.opening tag) := by
  have text : r.content cs = r.tagText cs := by rw [content_of_tag opening, if_neg last]
  have begins : ∀ c ∈ (r.content cs).head?, c ∈ cs.head? ∨ c ∈ r.new.toList := by
    rw [text]
    exact fun c => mem_head?_tagText read
  refine ⟨?_, ?_, begins⟩
  · rw [ofTag_of_tag (head?_ne_slash opening begins), text, getLast?_tagText read, if_neg last,
      read_tagText read fresh]
    rfl
  · rw [text]
    exact exchanged_tagText read

/-- The slash at the end of an empty element is no part of its tag. -/
theorem isRetyped_empty {cs : List Char} {tag : Tag}
    (opening : (cs ++ ['/']).head? ≠ some '/') (read : Tag.read cs = .ok tag)
    (fresh : ¬ tag.Mentions r.new) : IsRetyped r (cs ++ ['/']) (.empty tag) := by
  have text : r.content (cs ++ ['/']) = r.tagText cs ++ ['/'] := by
    rw [content_of_tag opening, List.getLast?_concat, if_pos rfl, List.dropLast_concat]
  have ne : cs ≠ [] := by
    rintro rfl
    exact opening rfl
  have begins : ∀ c ∈ (r.content (cs ++ ['/'])).head?,
      c ∈ (cs ++ ['/']).head? ∨ c ∈ r.new.toList := by
    have ne' : r.tagText cs ≠ [] := fun nothing => by
      have last := getLast?_tagText (r := r) read
      rw [nothing] at last
      exact ne (List.getLast?_eq_none_iff.mp last.symm)
    rw [text, List.head?_append_of_ne_nil _ ne', List.head?_append_of_ne_nil _ ne]
    exact fun c => mem_head?_tagText read
  refine ⟨?_, ?_, begins⟩
  · rw [ofTag_of_tag (head?_ne_slash opening begins), text, List.getLast?_concat, if_pos rfl,
      List.dropLast_concat, read_tagText read fresh]
    rfl
  · rw [text]
    exact (exchanged_tagText read).append (.refl _)

/-- A text between angle brackets that can be read is read with its names renamed. -/
theorem isRetyped {cs : List Char} {event : Event} (h : Event.ofTag cs = .ok event)
    (fresh : ∀ tag ∈ event.tag?, ¬ tag.Mentions r.new) : IsRetyped r cs event := by
  by_cases opening : cs.head? = some '/'
  · obtain ⟨name, rfl⟩ := List.head?_eq_some_iff.mp opening
    rw [Event.ofTag] at h
    obtain rfl := Except.ok.inj h
    exact isRetyped_closing name
  · rw [ofTag_of_tag opening] at h
    split at h
    · rename_i last
      obtain ⟨tag, read, rfl⟩ := Outcome.map_eq_ok_iff.mp h
      rw [← List.dropLast_append_getLast? '/' last] at opening ⊢
      exact isRetyped_empty opening read (fresh tag rfl)
    · rename_i last
      obtain ⟨tag, read, rfl⟩ := Outcome.map_eq_ok_iff.mp h
      exact isRetyped_opening opening last read (fresh tag rfl)

end Tags

end LaserCut.Markup
