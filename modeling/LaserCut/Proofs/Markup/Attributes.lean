import Mathlib.Data.List.TakeWhile
import LaserCut.Markup.Event
import LaserCut.Proofs.Outcome

/-!
# The grammar of tags

Which texts between angle brackets are tags: a name, and attributes that stand apart from it, each
with an equals sign and a quoted value (`SpellsAttributes`).

* `readAttributes_eq_ok_iff`: the attributes that are read are those that are spelled, under names
  that are all different;
* `Tag.read_eq_ok_iff`: so is the whole tag.
-/

namespace LaserCut.Markup

def isQuote (c : Char) : Bool := c == '"' || c == '\''

/-- The text of an attribute's name. Its first character may be any but white space. -/
def IsKey (cs : List Char) : Prop :=
  ∃ k ks, cs = k :: ks ∧ isSpace k = false ∧ ∀ c ∈ ks, isKeyChar c = true

/-- The text between the name of an attribute and the next: an equals sign and the quoted value. -/
def IsAssigned (text value : List Char) : Prop :=
  ∃ gap gap' q, (∀ c ∈ gap, isSpace c = true) ∧ (∀ c ∈ gap', isSpace c = true) ∧
    isQuote q = true ∧ text = gap ++ '=' :: (gap' ++ q :: (value ++ [q])) ∧
    ∀ tail, scan (fun () c => c == q) (fun _ _ => ()) () (value ++ q :: tail) = some (value, tail)

/-- The attributes as a tag spells them, up to its end. -/
inductive SpellsAttributes : List (String × String) → List Char → Prop
  | nil {cs : List Char} : (∀ c ∈ cs, isSpace c = true) → SpellsAttributes [] cs
  | cons {spaces key text value tail : List Char} {attributes : List (String × String)} :
    (∀ c ∈ spaces, isSpace c = true) → IsKey key → IsAssigned text value →
    SpellsAttributes attributes tail →
    SpellsAttributes ((String.ofList key, String.ofList value) :: attributes)
      (spaces ++ (key ++ (text ++ tail)))

/-! ## Pieces of an attribute -/

/-- A scan takes what is before the character that ends it, whatever follows. -/
theorem of_scan_eq_some {σ : Type} {closes : σ → Char → Bool} {advance : σ → Char → σ} {s : σ}
    {cs before after : List Char} (h : scan closes advance s cs = some (before, after)) :
    ∃ t c, closes t c = true ∧ cs = before ++ c :: after ∧
      ∀ after', scan closes advance s (before ++ c :: after') = some (before, after') := by
  induction cs generalizing s before with
  | nil => cases h
  | cons c cs ih =>
    unfold scan at h
    split at h
    · rename_i ends
      cases h
      exact ⟨s, c, ends, rfl, fun after' => if_pos ends⟩
    · rename_i goes
      obtain ⟨⟨piece, rest⟩, scanned, parts⟩ := Option.map_eq_some_iff.mp h
      cases parts
      obtain ⟨t, d, ends, rfl, again⟩ := ih scanned
      refine ⟨t, d, ends, rfl, fun after' => ?_⟩
      rw [List.cons_append, scan, if_neg goes, again]
      rfl

theorem isQuote_iff {c : Char} : isQuote c = true ↔ c = '"' ∨ c = '\'' := by
  simp [isQuote]

theorem isSpace_of_isKeyChar {c : Char} (h : isKeyChar c = true) : isSpace c = false := by
  simp only [isKeyChar, Bool.and_eq_true, Bool.not_eq_true'] at h
  exact h.2

theorem isSpace_takeWhile (cs : List Char) : ∀ c ∈ cs.takeWhile isSpace, isSpace c = true :=
  List.all_eq_true.mp List.all_takeWhile

theorem dropWhile_spaces {spaces : List Char} (h : ∀ c ∈ spaces, isSpace c = true) {k : Char}
    (hk : isSpace k = false) (cs : List Char) :
    (spaces ++ k :: cs).dropWhile isSpace = k :: cs := by
  rw [List.dropWhile_append_of_pos h, List.dropWhile_cons, hk]
  rfl

theorem takeWhile_spaces {spaces : List Char} (h : ∀ c ∈ spaces, isSpace c = true) {k : Char}
    (hk : isSpace k = false) (cs : List Char) :
    (spaces ++ k :: cs).takeWhile isSpace = spaces := by
  rw [List.takeWhile_append_of_pos h, List.takeWhile_cons, hk]
  simp

/-- What follows the name of an attribute is no part of it. -/
theorem IsAssigned.exists_cons {text value : List Char} (h : IsAssigned text value) :
    ∃ c cs, text = c :: cs ∧ isKeyChar c = false := by
  obtain ⟨gap, gap', q, hg, -, -, rfl, -⟩ := h
  cases gap with
  | nil => exact ⟨_, _, rfl, by decide⟩
  | cons c gap =>
    have := hg c List.mem_cons_self
    exact ⟨c, _, rfl, by simp [isKeyChar, this]⟩

theorem dropWhile_key {ks text value : List Char} (h : ∀ c ∈ ks, isKeyChar c = true)
    (ht : IsAssigned text value) (tail : List Char) :
    (ks ++ (text ++ tail)).dropWhile isKeyChar = text ++ tail := by
  obtain ⟨c, cs, rfl, hc⟩ := ht.exists_cons
  rw [List.dropWhile_append_of_pos h, List.cons_append, List.dropWhile_cons, hc]
  rfl

theorem takeWhile_key {ks text value : List Char} (h : ∀ c ∈ ks, isKeyChar c = true)
    (ht : IsAssigned text value) (tail : List Char) :
    (ks ++ (text ++ tail)).takeWhile isKeyChar = ks := by
  obtain ⟨c, cs, rfl, hc⟩ := ht.exists_cons
  rw [List.takeWhile_append_of_pos h, List.cons_append, List.takeWhile_cons, hc]
  simp

/-! ## Attributes that are read -/

theorem find?_name_eq_none_iff {seen : List (String × Nat)} {name : String} :
    seen.find? (·.1 == name) = none ↔ name ∉ seen.map Prod.fst := by
  rw [List.find?_eq_none, List.mem_map]
  constructor
  · rintro unseen ⟨s, hs, same⟩
    exact unseen s hs (beq_iff_eq.mpr same)
  · intro unseen s hs same
    exact unseen ⟨s, hs, beq_iff_eq.mp same⟩

/-- An attribute in front of others. -/
theorem readAttributes_append (content : List Char) {seen : List (String × Nat)}
    {spaces key text value : List Char} (hs : ∀ c ∈ spaces, isSpace c = true) (hk : IsKey key)
    (ht : IsAssigned text value) (unseen : String.ofList key ∉ seen.map Prod.fst)
    (tail : List Char) :
    ∃ place, readAttributes content seen (spaces ++ (key ++ (text ++ tail))) =
      (readAttributes content ((String.ofList key, place) :: seen) tail).map
        ((String.ofList key, String.ofList value) :: ·) := by
  obtain ⟨k, ks, rfl, hk, hks⟩ := hk
  have begins := dropWhile_spaces hs hk (ks ++ (text ++ tail))
  have named := takeWhile_key hks ht tail
  have ends := dropWhile_key hks ht tail
  have find := find?_name_eq_none_iff.mpr unseen
  obtain ⟨gap, gap', q, hg, hg', hq, rfl, closes⟩ := ht
  have nonspace : isSpace q = false := by
    rcases isQuote_iff.mp hq with rfl | rfl <;> rfl
  have equals (cs : List Char) : (gap ++ '=' :: cs).dropWhile isSpace = '=' :: cs :=
    dropWhile_spaces hg (by decide) cs
  have opens (cs : List Char) : (gap' ++ q :: cs).dropWhile isSpace = q :: cs :=
    dropWhile_spaces hg' nonspace cs
  simp only [List.append_assoc, List.cons_append, List.nil_append] at begins named ends ⊢
  rw [readAttributes]
  split
  · rename_i nothing
    rw [begins] at nothing
    cases nothing
  · rename_i k' rest first
    obtain ⟨rfl, rfl⟩ := List.cons.inj (begins.symm.trans first)
    dsimp only
    split
    · rename_i afterEquals he
      rw [ends, equals] at he
      obtain rfl := (List.cons.inj he).2
      rw [named, find]
      dsimp only
      split
      · rename_i nothing
        rw [opens] at nothing
        cases nothing
      · rename_i q' quoted hq'
        obtain ⟨rfl, rfl⟩ := List.cons.inj ((opens _).symm.trans hq')
        rw [if_pos (isQuote_iff.mp hq)]
        split
        · rename_i unclosed
          rw [closes] at unclosed
          cases unclosed
        · rename_i value' tail' closed
          rw [closes] at closed
          cases closed
          exact ⟨_, rfl⟩
    · rename_i other
      exact absurd ((congrArg _ ends).trans (equals _)) (other _)

theorem not_isSpace_of_dropWhile {k : Char} {cs rest : List Char}
    (h : cs.dropWhile isSpace = k :: rest) : isSpace k = false := by
  have := List.head?_dropWhile_not isSpace cs
  rw [h] at this
  exact this

/-- The pieces that the reader of an attribute cuts a text into. -/
theorem exists_assigned {cs rest afterEquals quoted value tail : List Char} {k q : Char}
    (hk : cs.dropWhile isSpace = k :: rest)
    (he : (rest.dropWhile isKeyChar).dropWhile isSpace = '=' :: afterEquals)
    (hq : afterEquals.dropWhile isSpace = q :: quoted) (quote : q = '"' ∨ q = '\'')
    (hv : scan (fun () c => c == q) (fun _ _ => ()) () quoted = some (value, tail)) :
    IsKey (k :: rest.takeWhile isKeyChar) ∧ ∃ text, IsAssigned text value ∧
      cs = cs.takeWhile isSpace ++ ((k :: rest.takeWhile isKeyChar) ++ (text ++ tail)) := by
  have keys : ∀ c ∈ rest.takeWhile isKeyChar, isKeyChar c = true :=
    List.all_eq_true.mp List.all_takeWhile
  refine ⟨⟨k, _, rfl, not_isSpace_of_dropWhile hk, keys⟩, ?_⟩
  obtain ⟨_, c, closing, rfl, closes⟩ := of_scan_eq_some hv
  obtain rfl := beq_iff_eq.mp closing
  refine ⟨_, ⟨_, _, c, isSpace_takeWhile (rest.dropWhile isKeyChar), isSpace_takeWhile afterEquals,
    isQuote_iff.mpr quote, rfl, closes⟩, ?_⟩
  have assigned : (rest.dropWhile isKeyChar).takeWhile isSpace ++
      '=' :: (afterEquals.takeWhile isSpace ++ c :: (value ++ c :: tail)) =
      rest.dropWhile isKeyChar := by
    rw [← hq, List.takeWhile_append_dropWhile, ← he, List.takeWhile_append_dropWhile]
  simp only [List.append_assoc, List.cons_append, List.nil_append]
  rw [assigned, List.takeWhile_append_dropWhile, ← hk, List.takeWhile_append_dropWhile]

/-- Attributes that are read are spelled in the text, under names that are all different. -/
theorem spellsAttributes_of_read {content cs : List Char} {seen : List (String × Nat)}
    {attributes : List (String × String)}
    (h : readAttributes content seen cs = .ok attributes) :
    SpellsAttributes attributes cs ∧ (attributes.map Prod.fst).Nodup ∧
      ∀ name ∈ attributes.map Prod.fst, name ∉ seen.map Prod.fst := by
  fun_induction readAttributes content seen cs generalizing attributes with
  | case1 seen cs blank =>
    cases h
    refine ⟨.nil fun c hc => ?_, List.nodup_nil, nofun⟩
    exact List.dropWhile_eq_nil_iff.mp blank c hc
  | case5 seen cs k rest hk key place afterEquals he unseen q quoted hq quote value tail hv =>
    rename_i ih
    obtain ⟨others, ho, rfl⟩ := Outcome.map_eq_ok_iff.mp h
    obtain ⟨spelt, nodup, new⟩ := ih ho
    obtain ⟨named, text, assigned, whole⟩ := exists_assigned hk he hq quote hv
    refine ⟨?_, ?_, ?_⟩
    · rw [whole]
      exact .cons (isSpace_takeWhile cs) named assigned spelt
    · refine List.nodup_cons.mpr ⟨fun mem => ?_, nodup⟩
      exact new key mem List.mem_cons_self
    · refine List.forall_mem_cons.mpr ⟨find?_name_eq_none_iff.mp unseen, fun name mem seen => ?_⟩
      exact new name mem (List.mem_cons_of_mem _ seen)
  | case2 | case3 | case4 | case6 | case7 => cases h

theorem readAttributes_of_spells {content cs : List Char} {seen : List (String × Nat)}
    {attributes : List (String × String)} (spelt : SpellsAttributes attributes cs)
    (nodup : (attributes.map Prod.fst).Nodup)
    (unseen : ∀ name ∈ attributes.map Prod.fst, name ∉ seen.map Prod.fst) :
    readAttributes content seen cs = .ok attributes := by
  induction spelt generalizing seen with
  | nil blank =>
    rw [readAttributes]
    split
    · rfl
    · rename_i k rest hk
      rw [List.dropWhile_eq_nil_iff.mpr blank] at hk
      cases hk
  | cons hs hk ht _ ih =>
    rw [List.map_cons, List.nodup_cons] at nodup
    rw [List.map_cons, List.forall_mem_cons] at unseen
    obtain ⟨place, first⟩ := readAttributes_append content hs hk ht unseen.1 _
    rw [first, ih nodup.2 fun name mem => ?_]
    · rfl
    · rw [List.map_cons, List.mem_cons, not_or]
      exact ⟨fun same => nodup.1 (same ▸ mem), unseen.2 name mem⟩

/-- `readAttributes` reads the attributes that are spelled, if their names are different. -/
theorem readAttributes_eq_ok_iff {content cs : List Char} {seen : List (String × Nat)}
    {attributes : List (String × String)} :
    readAttributes content seen cs = .ok attributes ↔
      SpellsAttributes attributes cs ∧ (attributes.map Prod.fst).Nodup ∧
        ∀ name ∈ attributes.map Prod.fst, name ∉ seen.map Prod.fst :=
  ⟨spellsAttributes_of_read, fun ⟨spelt, nodup, unseen⟩ =>
    readAttributes_of_spells spelt nodup unseen⟩

/-! ## Tags that are read -/

/-- The name of a tag, and what stands apart from it. -/
theorem span_name {name rest : List Char} (hn : ∀ c ∈ name, isSpace c = false)
    (hr : ∀ c ∈ rest.head?, isSpace c = true) :
    (name ++ rest).takeWhile (!isSpace ·) = name ∧
      (name ++ rest).dropWhile (!isSpace ·) = rest := by
  have hn : ∀ c ∈ name, (!isSpace c) = true := fun c hc => by rw [hn c hc]; rfl
  rw [List.takeWhile_append_of_pos hn, List.dropWhile_append_of_pos hn]
  cases rest with
  | nil => simp
  | cons c rest => simp [hr c rfl]

theorem isSpace_head?_dropWhile (cs : List Char) :
    ∀ c ∈ (cs.dropWhile (!isSpace ·)).head?, isSpace c = true := by
  have := List.head?_dropWhile_not (!isSpace ·) cs
  intro c hc
  rw [Option.mem_def.mp hc] at this
  simpa using this

/-- A tag is its name and the attributes that are spelled after it. -/
theorem Tag.read_eq_ok_iff {cs : List Char} {tag : Tag} :
    Tag.read cs = .ok tag ↔
      tag.name = String.ofList (cs.takeWhile (!isSpace ·)) ∧
        SpellsAttributes tag.attributes (cs.dropWhile (!isSpace ·)) ∧
        (tag.attributes.map Prod.fst).Nodup := by
  refine Outcome.map_eq_ok_iff.trans ⟨?_, ?_⟩
  · rintro ⟨attributes, read, rfl⟩
    obtain ⟨spelt, nodup, -⟩ := readAttributes_eq_ok_iff.mp read
    exact ⟨rfl, spelt, nodup⟩
  · rintro ⟨named, spelt, nodup⟩
    refine ⟨tag.attributes,
      readAttributes_eq_ok_iff.mpr ⟨spelt, nodup, fun _ _ => List.not_mem_nil⟩, ?_⟩
    rw [← named]

end LaserCut.Markup
