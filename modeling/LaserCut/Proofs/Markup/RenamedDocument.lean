import LaserCut.Proofs.Markup.RenamedTags

/-!
# Renaming a prefix in a document

A document with one prefix typed for another in the names and declarations of its tags, and nothing
else changed: character data, comments and values stay, even where they have the prefix in them.

* `Renaming.text`, `Renaming.document`: the new text;
* `markup_renamed`: one piece of markup is read as before, with its names renamed;
* `Event.read_document`: the new document has the renamed events.
-/

namespace LaserCut.Markup

namespace Renaming

variable (r : Renaming)

/-- A piece of markup, after its `<`, with the names of a tag renamed. -/
def markupText (event : Event) (piece : List Char) : List Char :=
  match event with
  | .aside => piece
  | .opening _ | .empty _ | .closing _ => r.content piece.dropLast ++ ['>']

/-- A text with the names of its tags renamed. -/
def text (cs : List Char) : List Char :=
  match cs with
  | [] => []
  | c :: cs =>
    if c = '<' then
      match h : markup [] cs with
      | .error _ => c :: cs
      | .ok (event, rest) =>
        have := length_lt_of_markup h
        c :: (r.markupText event (cs.take (cs.length - rest.length)) ++ text rest)
    else c :: text cs
termination_by cs.length

/-- A document with the names of its tags renamed. -/
def document (document : String) : String := String.ofList (r.text document.toList)

end Renaming

/-! ## Pieces of markup -/

section Pieces

variable {source cs rest : List Char}

theorem closed_eq_ok_iff {fault : Fault} {result : Option (List Char × List Char)}
    {p : List Char × List Char} : closed source fault result = .ok p ↔ result = some p := by
  unfold closed faultAt
  split <;> simp

/-- A scan that ends at a `>` and takes what is before it, whatever follows. -/
def EndsAtBracket (scans : List Char → Option (List Char × List Char)) : Prop :=
  ∀ cs content rest, scans cs = some (content, rest) → cs = content ++ '>' :: rest ∧
    ∀ rest', scans (content ++ '>' :: rest') = some (content, rest')

theorem endsAtBracket_scanEnding (ending : List Char) (least : Nat) :
    EndsAtBracket (scanEnding ending least) := by
  intro cs content rest h
  obtain ⟨_, c, ends, whole, again⟩ := of_scan_eq_some h
  simp only [Bool.and_eq_true, beq_iff_eq] at ends
  obtain ⟨⟨rfl, -⟩, -⟩ := ends
  exact ⟨whole, again⟩

theorem endsAtBracket_scanBalanced : EndsAtBracket scanBalanced := by
  intro cs content rest h
  obtain ⟨_, c, ends, whole, again⟩ := of_scan_eq_some h
  simp only [Bool.and_eq_true, beq_iff_eq] at ends
  obtain ⟨rfl, -⟩ := ends
  exact ⟨whole, again⟩

theorem endsAtBracket_scanTag : EndsAtBracket scanTag := by
  intro cs content rest h
  obtain ⟨_, c, ends, whole, again⟩ := of_scan_eq_some h
  simp only [Bool.and_eq_true, beq_iff_eq] at ends
  obtain ⟨-, rfl⟩ := ends
  exact ⟨whole, again⟩

/-- A check of a piece of markup that does not look at what follows it. -/
def IsBlind (check : List Char → List Char × List Char → Except MarkupError (List Char)) : Prop :=
  ∀ source content rest out, check source (content, rest) = .ok out →
    out = rest ∧ ∀ source' rest', check source' (content, rest') = .ok rest'

/-- What is passed over after a scan and a check is passed over whatever follows. -/
theorem of_closed_bind {fault : Fault} {scans : List Char → Option (List Char × List Char)}
    {check : List Char → List Char × List Char → Except MarkupError (List Char)}
    (ends : EndsAtBracket scans) (blind : IsBlind check)
    (h : (closed source fault (scans cs) >>= check source) = .ok rest) :
    ∃ content, cs = content ++ '>' :: rest ∧ ∀ source' rest',
      (closed source' fault (scans (content ++ '>' :: rest')) >>= check source') = .ok rest' := by
  obtain ⟨⟨content, after⟩, scanned, checked⟩ := Outcome.bind_eq_ok_iff.mp h
  obtain ⟨whole, again⟩ := ends _ _ _ (closed_eq_ok_iff.mp scanned)
  obtain ⟨rfl, always⟩ := blind _ _ _ _ checked
  refine ⟨content, whole, fun source' rest' => ?_⟩
  rw [closed_eq_ok_iff.mpr (again rest')]
  exact always source' rest'

theorem isBlind_if (p : List Char → Bool) (fault : Fault) :
    IsBlind fun source (content, rest) =>
      if p content then return rest else faultAt source fault rest := by
  intro source content rest out checked
  dsimp only at checked ⊢
  split at checked
  · rename_i good
    cases checked
    exact ⟨rfl, fun _ _ => if_pos good⟩
  · cases checked

theorem of_passInstruction_eq_ok (h : passInstruction source cs = .ok rest) :
    ∃ content, cs = content ++ '>' :: rest ∧
      ∀ source' rest', passInstruction source' (content ++ '>' :: rest') = .ok rest' := by
  refine of_closed_bind (endsAtBracket_scanEnding ['?'] 0) (fun source content rest out checked =>
    ?_) h
  dsimp only at checked ⊢
  split at checked
  · cases checked
  · rename_i long
    cases checked
    exact ⟨rfl, fun _ _ => if_neg long⟩

/-- The name of a document type is checked in two steps. -/
theorem isBlind_doctype : IsBlind fun source (content, rest) => do
    if !"!DOCTYPE".toList.isPrefixOf (content.map Char.toUpper) then
      faultAt source .doctypeNotClosed rest
    if (content.drop "!DOCTYPE".length).all isSpace then
      faultAt source .doctypeWithoutName rest
    return rest := by
  intro source content rest out checked
  dsimp only at checked ⊢
  split at checked
  · cases checked
  · rename_i typed
    split at checked
    · cases checked
    · rename_i named
      cases checked
      refine ⟨rfl, fun _ _ => ?_⟩
      rw [if_neg typed, if_neg named]
      rfl

/-- The first two characters of a declaration are inside it. -/
theorem exists_cons_cons {content tail : List Char} {c : Char} (hc : c ≠ '>')
    (h : '!' :: c :: tail = content ++ '>' :: rest) : ∃ ds, content = '!' :: c :: ds := by
  rcases content with _ | ⟨a, _ | ⟨b, ds⟩⟩
  · cases h
  · cases h
    exact absurd rfl hc
  · cases h
    exact ⟨ds, rfl⟩

theorem of_passDeclaration_eq_ok {tail : List Char}
    (h : passDeclaration source ('!' :: tail) = .ok rest) :
    ∃ content, '!' :: tail = content ++ '>' :: rest ∧
      ∀ source' rest', passDeclaration source' (content ++ '>' :: rest') = .ok rest' := by
  unfold passDeclaration at h
  split at h
  · rename_i tail same
    cases same
    have blind := isBlind_if (fun content => "!--".toList.isPrefixOf content) .commentNotClosed
    obtain ⟨content, whole, again⟩ := of_closed_bind (endsAtBracket_scanEnding ['-', '-'] 5) blind h
    obtain ⟨ds, rfl⟩ := exists_cons_cons (by decide) whole
    exact ⟨_, whole, again⟩
  · rename_i tail same
    cases same
    have blind := isBlind_if (fun content => "![CDATA[".toList.isPrefixOf content) .cdataNotClosed
    obtain ⟨content, whole, again⟩ := of_closed_bind (endsAtBracket_scanEnding [']', ']'] 0) blind h
    obtain ⟨ds, rfl⟩ := exists_cons_cons (by decide) whole
    exact ⟨_, whole, again⟩
  · rename_i c tail noComment noSection same
    cases same
    split at h
    · rename_i doctype
      obtain ⟨content, whole, again⟩ :=
        of_closed_bind endsAtBracket_scanBalanced isBlind_doctype h
      obtain ⟨ds, rfl⟩ := exists_cons_cons (by rcases doctype with rfl | rfl <;> decide) whole
      refine ⟨_, whole, fun source' rest' => ?_⟩
      have := again source' rest'
      rcases doctype with rfl | rfl
      · exact this
      · exact this
    · cases h
  · cases h

end Pieces

/-! ## Events -/

section Reading

variable {r : Renaming} {source cs rest : List Char} {event : Event}

/-- A tag is not one of the pieces that are passed over. -/
def StartsTag (cs : List Char) : Prop := ∀ c ∈ cs.head?, c ≠ '!' ∧ c ≠ '?'

theorem markup_of_startsTag (h : StartsTag cs) :
    markup source cs = closed source .tagNotClosed (scanTag cs) >>= fun (content, rest) =>
      match Event.ofTag content with
      | .ok event => .ok (event, rest)
      | .error fault => .error (.inTag fault) := by
  unfold markup
  split
  · exact absurd rfl (h _ rfl).1
  · exact absurd rfl (h _ rfl).2
  · rfl

theorem startsTag_append {content : List Char} (h : StartsTag content) (rest : List Char) :
    StartsTag (content ++ '>' :: rest) := by
  cases content with
  | nil =>
    rintro c ⟨⟩
    decide
  | cons c content => exact h

theorem ofTag_ne_aside {content : List Char} : Event.ofTag content ≠ .ok .aside := by
  intro h
  unfold Event.ofTag at h
  split at h
  · cases h
  · split at h <;> obtain ⟨_, -, same⟩ := Outcome.map_eq_ok_iff.mp h <;> cases same

theorem exists_cons {content tail : List Char} {c : Char} (hc : c ≠ '>')
    (h : c :: tail = content ++ '>' :: rest) : ∃ ds, content = c :: ds := by
  cases content with
  | nil =>
    cases h
    exact absurd rfl hc
  | cons d content =>
    cases h
    exact ⟨content, rfl⟩

theorem of_markup_of_startsTag (tag : StartsTag cs) (h : markup source cs = .ok (event, rest)) :
    ∃ content, cs = content ++ '>' :: rest ∧ event ≠ .aside ∧ StartsTag content ∧
      scanTag cs = some (content, rest) ∧ Event.ofTag content = .ok event := by
  rw [markup_of_startsTag tag] at h
  obtain ⟨⟨content, after⟩, scanned, made⟩ := Outcome.bind_eq_ok_iff.mp h
  have scanned := closed_eq_ok_iff.mp scanned
  dsimp only at made
  split at made
  · rename_i event' read
    cases made
    obtain ⟨rfl, -⟩ := endsAtBracket_scanTag _ _ _ scanned
    refine ⟨content, rfl, ?_, ?_, scanned, read⟩
    · rintro rfl
      exact ofTag_ne_aside read
    · intro c hc
      refine tag c ?_
      rw [List.head?_append, Option.mem_def.mp hc]
      rfl
  · cases made

/-- Comments, declarations and instructions end with a bracket, too. -/
theorem of_markup_of_not_startsTag (other : ¬ StartsTag cs)
    (h : markup source cs = .ok (event, rest)) :
    ∃ content, cs = content ++ '>' :: rest ∧ event = .aside ∧
      ∀ source' rest', markup source' (content ++ '>' :: rest') = .ok (.aside, rest') := by
  obtain ⟨c, tail, rfl, pass⟩ : ∃ c tail, cs = c :: tail ∧ (c = '!' ∨ c = '?') := by
    cases cs with
    | nil => exact absurd nofun other
    | cons c tail =>
      refine ⟨c, tail, rfl, Decidable.byContradiction fun neither => other ?_⟩
      rintro d ⟨⟩
      exact not_or.mp neither
  rcases pass with rfl | rfl
  · obtain ⟨_, passed, same⟩ := Outcome.map_eq_ok_iff.mp h
    cases same
    obtain ⟨content, whole, again⟩ := of_passDeclaration_eq_ok passed
    obtain ⟨ds, rfl⟩ := exists_cons (by decide) whole
    refine ⟨_, whole, rfl, fun source' rest' => ?_⟩
    show (passDeclaration source' _).map _ = _
    rw [again]
    rfl
  · obtain ⟨_, passed, same⟩ := Outcome.map_eq_ok_iff.mp h
    cases same
    obtain ⟨content, whole, again⟩ := of_passInstruction_eq_ok passed
    obtain ⟨ds, rfl⟩ := exists_cons (by decide) whole
    refine ⟨_, whole, rfl, fun source' rest' => ?_⟩
    show (passInstruction source' _).map _ = _
    rw [again]
    rfl

/-- What stands after a `<`: something to pass over, or a tag. -/
theorem of_markup_eq_ok (h : markup source cs = .ok (event, rest)) :
    ∃ content, cs = content ++ '>' :: rest ∧
      (event = .aside ∧
        (∀ source' rest', markup source' (content ++ '>' :: rest') = .ok (.aside, rest')) ∨
      event ≠ .aside ∧ StartsTag content ∧ scanTag cs = some (content, rest) ∧
        Event.ofTag content = .ok event) := by
  by_cases tag : StartsTag cs
  · obtain ⟨content, whole, parts⟩ := of_markup_of_startsTag tag h
    exact ⟨content, whole, .inr parts⟩
  · obtain ⟨content, whole, parts⟩ := of_markup_of_not_startsTag tag h
    exact ⟨content, whole, .inl parts⟩

/-- Whether markup is read does not depend on where it stands in a document. -/
theorem markup_eq_ok_of_eq_ok (h : markup source cs = .ok (event, rest)) (source' : List Char) :
    markup source' cs = .ok (event, rest) := by
  obtain ⟨content, rfl, ⟨rfl, again⟩ | ⟨-, starts, scanned, read⟩⟩ := of_markup_eq_ok h
  · exact again source' rest
  · rw [markup_of_startsTag (startsTag_append starts rest), scanned]
    show (match Event.ofTag content with | .ok event => _ | .error fault => _) = _
    rw [read]

/-- Renamed markup is read as the renamed event. -/
theorem markup_renamed (h : markup source cs = .ok (event, rest))
    (fresh : ∀ tag ∈ event.tag?, ¬ tag.Mentions r.new) (source' rest' : List Char) :
    markup source' (r.markupText event (cs.take (cs.length - rest.length)) ++ rest') =
      .ok (r.event event, rest') := by
  obtain ⟨content, rfl, meaning⟩ := of_markup_eq_ok h
  have piece : (content ++ '>' :: rest).take ((content ++ '>' :: rest).length - rest.length) =
      content ++ ['>'] := by
    rw [List.append_cons, List.length_append, Nat.add_sub_cancel, List.take_left]
  rw [piece]
  rcases meaning with ⟨rfl, again⟩ | ⟨tag, starts, scanned, read⟩
  · show markup source' (content ++ ['>'] ++ rest') = _
    rw [← List.append_cons]
    exact again source' rest'
  · have retyped := isRetyped (r := r) read fresh
    have text : r.markupText event (content ++ ['>']) = r.content content ++ ['>'] := by
      unfold Renaming.markupText
      split
      · exact absurd rfl tag
      all_goals rw [List.dropLast_concat]
    have starts' : StartsTag (r.content content) := by
      intro c hc
      rcases retyped.begins c hc with mem | mem
      · exact starts c mem
      · have plain := r.isPrefix_new.plain c mem
        constructor <;> rintro rfl <;> exact plain (by decide)
    rw [text, ← List.append_cons, markup_of_startsTag (startsTag_append starts' rest'),
      scanTag_of_exchanged retyped.exchanged scanned]
    show (match Event.ofTag (r.content content) with | .ok event => _ | .error fault => _) = _
    rw [retyped.read]

end Reading

/-! ## Documents -/

section Documents

variable {r : Renaming} {source cs rest : List Char}

theorem text_cons_markup {event : Event} (h : markup source cs = .ok (event, rest)) :
    r.text ('<' :: cs) =
      '<' :: (r.markupText event (cs.take (cs.length - rest.length)) ++ r.text rest) := by
  have same := markup_eq_ok_of_eq_ok h []
  rw [Renaming.text, if_pos rfl]
  split
  · rename_i fault
    rw [same] at fault
    cases fault
  · rename_i read
    rw [same] at read
    cases read
    rfl

theorem text_cons {c : Char} (h : c ≠ '<') (cs : List Char) :
    r.text (c :: cs) = c :: r.text cs := by
  rw [Renaming.text, if_neg h]

/-- Names that nest keep nesting. -/
theorem nest_renamed {opened names : List String} {event : Event}
    (h : nest source opened event rest = .ok names) (source' rest' : List Char) :
    nest source' (opened.map r.name) (r.event event) rest' = .ok (names.map r.name) := by
  cases event with
  | opening | empty | aside =>
    cases h
    rfl
  | closing name =>
    cases opened with
    | nil => cases h
    | cons top outer =>
      unfold nest at h
      dsimp only at h
      split at h
      · rename_i same
        cases h
        show (if r.name name = r.name top then _ else _) = _
        rw [same, if_pos rfl]
      · cases h

/-- A reference is passed over as before. -/
theorem passReference_renamed (h : passReference source cs = .ok rest) (source' : List Char) :
    passReference source' (r.text cs) = .ok (r.text rest) := by
  have whole := List.takeWhile_append_dropWhile (p := isReferenceChar) (l := cs)
  have name : ∀ c ∈ cs.takeWhile isReferenceChar, isReferenceChar c = true :=
    List.all_eq_true.mp List.all_takeWhile
  unfold passReference at h
  split at h
  · rename_i rest' ends
    cases h
    rw [ends] at whole
    generalize cs.takeWhile isReferenceChar = ref at whole name
    have text : r.text cs = ref ++ ';' :: r.text rest := by
      rw [← whole]
      clear whole ends
      induction ref with
      | nil => exact text_cons (by decide) rest
      | cons c ref ih =>
        have inside : c ≠ '<' := by
          rintro rfl
          exact absurd (name _ List.mem_cons_self) (by decide)
        rw [List.cons_append, text_cons inside, ih fun c hc => name c (List.mem_cons_of_mem _ hc)]
        rfl
    have again : (ref ++ ';' :: r.text rest).dropWhile isReferenceChar = ';' :: r.text rest := by
      rw [List.dropWhile_append_of_pos name]
      rfl
    rw [text, passReference, again]
    rfl
  · cases h

/-- What is left of a document is read as before, with the names renamed. -/
theorem events_renamed {opened : List String} {events : List Event}
    (h : Markup.events source opened cs = .ok events)
    (fresh : ∀ event ∈ events, ∀ tag ∈ event.tag?, ¬ tag.Mentions r.new) (source' : List Char) :
    Markup.events source' (opened.map r.name) (r.text cs) = .ok (events.map r.event) := by
  fun_induction Markup.events source opened cs generalizing events with
  | case1 =>
    cases h
    rw [Renaming.text, Markup.events]
    rfl
  | case2 | case3 | case5 => cases h
  | case4 opened cs event rest read _ names nested ih =>
    obtain ⟨later, hl, rfl⟩ := Outcome.map_eq_ok_iff.mp h
    obtain ⟨first, others⟩ := List.forall_mem_cons.mp fresh
    have next := ih hl others
    rw [text_cons_markup read, Markup.events, if_pos rfl]
    split
    · rename_i fault
      rw [markup_renamed read first] at fault
      cases fault
    · rename_i again
      rw [markup_renamed read first] at again
      cases again
      dsimp only
      rw [nest_renamed nested]
      show (Markup.events source' (names.map r.name) (r.text rest)).map _ = _
      rw [next]
      rfl
  | case6 opened cs rest read =>
    rename_i ih
    rw [text_cons (by decide), Markup.events, if_neg (by decide), if_pos rfl]
    split
    · rename_i fault
      rw [passReference_renamed read] at fault
      cases fault
    · rename_i again
      rw [passReference_renamed read] at again
      cases again
      exact ih h fresh
  | case7 opened c cs plain other ih =>
    rw [text_cons plain, Markup.events, if_neg plain, if_neg other]
    exact ih h fresh

theorem exists_text_cons (c : Char) (cs : List Char) : ∃ ds, r.text (c :: cs) = c :: ds := by
  rw [Renaming.text]
  split
  · split
    · exact ⟨_, rfl⟩
    · exact ⟨_, rfl⟩
  · exact ⟨_, rfl⟩

/-- A byte order mark is no part of a tag. -/
theorem dropByteOrderMark_text (cs : List Char) :
    Text.dropByteOrderMark (r.text cs) = r.text (Text.dropByteOrderMark cs) := by
  cases cs with
  | nil =>
    have nothing : r.text [] = [] := by rw [Renaming.text]
    show Text.dropByteOrderMark (r.text []) = r.text []
    rw [nothing]
    rfl
  | cons c cs =>
    by_cases mark : c = '\uFEFF'
    · subst mark
      rw [text_cons (by decide)]
      rfl
    · have stays (ds : List Char) : Text.dropByteOrderMark (c :: ds) = c :: ds := by
        unfold Text.dropByteOrderMark
        split
        · rename_i same
          exact absurd (List.cons.inj same).1 mark
        · rfl
      obtain ⟨ds, text⟩ := exists_text_cons (r := r) c cs
      rw [stays, text, stays]

/-- A renamed document has the renamed events. -/
theorem Event.read_document {document : String} {events : List Event}
    (h : Event.read document = .ok events)
    (fresh : ∀ event ∈ events, ∀ tag ∈ event.tag?, ¬ tag.Mentions r.new) :
    Event.read (r.document document) = .ok (events.map r.event) := by
  rw [Event.read, Renaming.document, String.toList_ofList, dropByteOrderMark_text]
  exact events_renamed h fresh _

end Documents

end LaserCut.Markup
