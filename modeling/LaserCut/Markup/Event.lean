import LaserCut.Markup.Error
import LaserCut.Text.Fields

/-!
# Markup events

A document as the sequence of its tags. Comments, instructions, declarations and character data are
checked and passed over.

* `Event`: what stands in a document, in order;
* `scan`: the text up to the character that closes a piece of markup;
* `Tag.read`: a tag from the text between its angle brackets;
* `Event.read`: the events of a document. End tags must match, but open elements may remain.

White space in markup is the blank, the tab and the two line breaks.
-/

namespace LaserCut.Markup

/-- White space in markup. -/
def isSpace (c : Char) : Bool := c == ' ' || c == '\t' || c == '\r' || c == '\n'

/-- A start tag: its name and attributes as they stand, with values not yet unescaped. -/
structure Tag where
  name : String
  attributes : List (String × String)
deriving DecidableEq, Repr

/-- What stands in a document. -/
inductive Event
  | opening (tag : Tag)
  | empty (tag : Tag)
  | closing (name : String)
  /-- Character data, a comment, an instruction or a declaration. -/
  | aside
deriving DecidableEq, Repr

/-- The text before the first character that closes in the state reached there, and the text after
that character. -/
def scan {σ : Type} (closes : σ → Char → Bool) (advance : σ → Char → σ) :
    σ → List Char → Option (List Char × List Char)
  | _, [] => none
  | s, c :: cs =>
    if closes s c then some ([], cs)
    else (scan closes advance (advance s c) cs).map fun (before, after) => (c :: before, after)

theorem length_lt_of_scan {σ : Type} {closes : σ → Char → Bool} {advance : σ → Char → σ} {s : σ}
    {cs before after : List Char} (h : scan closes advance s cs = some (before, after)) :
    after.length < cs.length := by
  induction cs generalizing s before after with
  | nil => simp [scan] at h
  | cons c cs ih =>
    unfold scan at h
    split at h
    · simp only [Option.some.injEq, Prod.mk.injEq] at h
      obtain ⟨-, rfl⟩ := h
      simp
    · obtain ⟨⟨b, a⟩, hp, he⟩ := Option.map_eq_some_iff.1 h
      simp only [Prod.mk.injEq] at he
      obtain ⟨-, rfl⟩ := he
      have := ih hp
      simp only [List.length_cons]
      omega

/-- Closed by `>` after the given ending, which is written backwards, and at least so many
characters. -/
def scanEnding (ending : List Char) (least : Nat) : List Char → Option (List Char × List Char) :=
  scan (fun before c => c == '>' && ending.isPrefixOf before && least ≤ before.length)
    (fun before c => c :: before) []

/-- Closed by the `>` that no `<` opened. -/
def scanBalanced : List Char → Option (List Char × List Char) :=
  scan (fun (depth : Nat) c => c == '>' && depth == 0)
    (fun depth c => if c == '<' then depth + 1 else if c == '>' then depth - 1 else depth) 0

/-- Closed by the first `>` outside quotes. -/
def scanTag : List Char → Option (List Char × List Char) :=
  scan (fun (quote : Option Char) c => quote.isNone && c == '>')
    (fun quote c =>
      match quote with
      | some q => if c == q then none else some q
      | none => if c == '\'' || c == '"' then some c else none) none

/-! ## Tags -/

/-- Not the end of an attribute's name. -/
def isKeyChar (c : Char) : Bool := c != '=' && !isSpace c

/-- The attributes in what is left of a tag; `seen` are the names before, each with its place. -/
def readAttributes (content : List Char) (seen : List (String × Nat)) (cs : List Char) :
    Except AttributeFault (List (String × String)) :=
  match hk : cs.dropWhile isSpace with
  | [] => .ok []
  | k :: rest =>
    let key := String.ofList (k :: rest.takeWhile isKeyChar)
    let place := Text.offset content (k :: rest)
    match he : (rest.dropWhile isKeyChar).dropWhile isSpace with
    | '=' :: afterEquals =>
      match seen.find? (·.1 == key) with
      | some (_, previous) => .error (.duplicated place previous)
      | none =>
        match hq : afterEquals.dropWhile isSpace with
        | [] => .error (.expectedValue (Text.offset content []))
        | q :: quoted =>
          if q = '"' ∨ q = '\'' then
            match hv : scan (fun () c => c == q) (fun _ _ => ()) () quoted with
            | none => .error (.unclosedValue (Text.offset content []) q)
            | some (value, tail) =>
              have : tail.length < cs.length := by
                have h₁ := (List.dropWhile_suffix isSpace (l := cs)).length_le
                have h₂ := (List.dropWhile_suffix isKeyChar (l := rest)).length_le
                have h₃ := (List.dropWhile_suffix isSpace (l := rest.dropWhile isKeyChar)).length_le
                have h₄ := (List.dropWhile_suffix isSpace (l := afterEquals)).length_le
                have h₅ := length_lt_of_scan hv
                simp only [hk, he, hq, List.length_cons] at h₁ h₃ h₄
                omega
              (readAttributes content ((key, place) :: seen) tail).map
                ((key, String.ofList value) :: ·)
          else .error (.unquotedValue (Text.offset content (q :: quoted)))
    | other => .error (.expectedEquals (Text.offset content other))
termination_by cs.length

/-- A start tag from the text between its angle brackets. -/
def Tag.read (content : List Char) : Except AttributeFault Tag :=
  let name := content.takeWhile (!isSpace ·)
  (readAttributes content [] (content.dropWhile (!isSpace ·))).map fun attributes =>
    ⟨String.ofList name, attributes⟩

/-- The text without the white space it ends in. -/
def trimEnd (cs : List Char) : List Char := (cs.reverse.dropWhile isSpace).reverse

/-- The name in a closing tag. White space behind it does not count, but white space alone is a name
of its own. -/
def closingName (cs : List Char) : List Char :=
  let name := trimEnd cs
  if name.isEmpty then cs else name

/-- The event of a tag, from the text between its angle brackets. -/
def Event.ofTag (content : List Char) : Except AttributeFault Event :=
  match content with
  | '/' :: name => .ok (.closing (String.ofList (closingName name)))
  | _ =>
    if content.getLast? = some '/' then (Tag.read content.dropLast).map .empty
    else (Tag.read content).map .opening

/-! ## Documents -/

section Reading

variable (source : List Char)

def faultAt {α : Type} (fault : Fault) (rest : List Char) : Except MarkupError α :=
  .error (.fault fault (Text.offset source rest))

/-- The rest of the document after a piece of markup, or the fault of one that does not close. -/
def closed (fault : Fault) (result : Option (List Char × List Char)) :
    Except MarkupError (List Char × List Char) :=
  match result with
  | some r => .ok r
  | none => faultAt source fault []

/-- Markup that begins with the given `!`: a comment, a section or a declaration. -/
def passDeclaration (cs : List Char) : Except MarkupError (List Char) :=
  match cs with
  | _ :: '-' :: _ => do
    let (content, rest) ← closed source .commentNotClosed (scanEnding ['-', '-'] 5 cs)
    if "!--".toList.isPrefixOf content then return rest
    faultAt source .commentNotClosed rest
  | _ :: '[' :: _ => do
    let (content, rest) ← closed source .cdataNotClosed (scanEnding [']', ']'] 0 cs)
    if "![CDATA[".toList.isPrefixOf content then return rest
    faultAt source .cdataNotClosed rest
  | _ :: c :: _ =>
    if c = 'D' ∨ c = 'd' then do
      let (content, rest) ← closed source .doctypeNotClosed (scanBalanced cs)
      if !"!DOCTYPE".toList.isPrefixOf (content.map Char.toUpper) then
        faultAt source .doctypeNotClosed rest
      if (content.drop "!DOCTYPE".length).all isSpace then
        faultAt source .doctypeWithoutName rest
      return rest
    else faultAt source .unknownMarkup cs
  | _ => faultAt source .unknownMarkup cs

/-- Markup that begins with the given `?`. -/
def passInstruction (cs : List Char) : Except MarkupError (List Char) := do
  let (content, rest) ← closed source .instructionNotClosed (scanEnding ['?'] 0 cs)
  if content.length ≤ 1 then faultAt source .instructionNotClosed rest
  return rest

/-- The event that stands after a `<`, and what follows it. -/
def markup (cs : List Char) : Except MarkupError (Event × List Char) :=
  match cs with
  | '!' :: _ => (passDeclaration source cs).map (Event.aside, ·)
  | '?' :: _ => (passInstruction source cs).map (Event.aside, ·)
  | _ => do
    let (content, rest) ← closed source .tagNotClosed (scanTag cs)
    match Event.ofTag content with
    | .ok event => return (event, rest)
    | .error fault => .error (.inTag fault)

/-- Not the end of a reference. -/
def isReferenceChar (c : Char) : Bool := c != ';' && c != '&' && c != '<'

/-- What follows a reference, from the text after its `&`. -/
def passReference (cs : List Char) : Except MarkupError (List Char) :=
  match cs.dropWhile isReferenceChar with
  | ';' :: rest => .ok rest
  | rest => faultAt source .referenceNotClosed rest

/-- The names of the open elements after an event, the innermost first; `rest` is what follows the
event. -/
def nest (opened : List String) (event : Event) (rest : List Char) :
    Except MarkupError (List String) :=
  match event, opened with
  | .opening tag, _ => .ok (tag.name :: opened)
  | .closing name, [] => faultAt source (.unmatchedEnd name) rest
  | .closing name, top :: outer =>
    if name = top then .ok outer else faultAt source (.mismatchedEnd top name) rest
  | _, _ => .ok opened

end Reading

/-! ## Every event takes at least one character -/

variable {source : List Char}

theorem length_lt_of_closed {fault : Fault} {result : Option (List Char × List Char)}
    {cs content rest : List Char}
    (h : closed source fault result = .ok (content, rest))
    (hr : ∀ a b, result = some (a, b) → b.length < cs.length) : rest.length < cs.length := by
  unfold closed at h
  split at h
  · simp only [Except.ok.injEq] at h
    subst h
    exact hr _ _ rfl
  · simp [faultAt] at h

theorem length_lt_of_passDeclaration {cs rest : List Char}
    (h : passDeclaration source cs = .ok rest) : rest.length < cs.length := by
  unfold passDeclaration at h
  split at h
  · simp only [bind, Except.bind, pure, Except.pure] at h
    split at h
    · simp at h
    · rename_i p hp
      split at h
      · simp only [Except.ok.injEq] at h
        subst h
        exact length_lt_of_closed hp fun _ _ => length_lt_of_scan
      · simp [faultAt] at h
  · simp only [bind, Except.bind, pure, Except.pure] at h
    split at h
    · simp at h
    · rename_i p hp
      split at h
      · simp only [Except.ok.injEq] at h
        subst h
        exact length_lt_of_closed hp fun _ _ => length_lt_of_scan
      · simp [faultAt] at h
  · split at h
    · simp only [bind, Except.bind, pure, Except.pure] at h
      split at h
      · simp at h
      · rename_i p hp
        split at h
        · simp [faultAt] at h
        · split at h
          · simp [faultAt] at h
          · simp only [Except.ok.injEq] at h
            subst h
            exact length_lt_of_closed hp fun _ _ => length_lt_of_scan
    · simp [faultAt] at h
  · simp [faultAt] at h

theorem length_lt_of_passInstruction {cs rest : List Char}
    (h : passInstruction source cs = .ok rest) : rest.length < cs.length := by
  unfold passInstruction at h
  simp only [bind, Except.bind, pure, Except.pure] at h
  split at h
  · simp at h
  · rename_i p hp
    split at h
    · simp [faultAt] at h
    · simp only [Except.ok.injEq] at h
      subst h
      exact length_lt_of_closed hp fun _ _ => length_lt_of_scan

theorem length_lt_of_markup {cs rest : List Char} {event : Event}
    (h : markup source cs = .ok (event, rest)) : rest.length < cs.length := by
  unfold markup at h
  split at h
  · cases hp : passDeclaration source _ with
    | error e => rw [hp] at h; simp [Except.map] at h
    | ok r =>
      rw [hp] at h
      simp only [Except.map, Except.ok.injEq, Prod.mk.injEq] at h
      obtain ⟨-, rfl⟩ := h
      exact length_lt_of_passDeclaration hp
  · cases hp : passInstruction source _ with
    | error e => rw [hp] at h; simp [Except.map] at h
    | ok r =>
      rw [hp] at h
      simp only [Except.map, Except.ok.injEq, Prod.mk.injEq] at h
      obtain ⟨-, rfl⟩ := h
      exact length_lt_of_passInstruction hp
  · simp only [bind, Except.bind, pure, Except.pure] at h
    split at h
    · simp at h
    · rename_i p hp
      split at h
      · simp only [Except.ok.injEq, Prod.mk.injEq] at h
        obtain ⟨-, rfl⟩ := h
        exact length_lt_of_closed hp fun _ _ => length_lt_of_scan
      · simp at h

theorem length_le_of_passReference {cs rest : List Char}
    (h : passReference source cs = .ok rest) : rest.length ≤ cs.length := by
  have hs := (List.dropWhile_suffix isReferenceChar (l := cs)).length_le
  unfold passReference at h
  split at h
  · rename_i hr
    simp only [Except.ok.injEq] at h
    subst h
    rw [hr] at hs
    simp only [List.length_cons] at hs
    omega
  · simp [faultAt] at h

/-- The events of what is left of a document, inside the elements with the given names. -/
def events (source : List Char) (opened : List String) (cs : List Char) :
    Except MarkupError (List Event) :=
  match cs with
  | [] => .ok []
  | c :: cs =>
    if c = '<' then
      match h : markup source cs with
      | .error e => .error e
      | .ok (event, rest) =>
        have := length_lt_of_markup h
        match nest source opened event rest with
        | .error e => .error e
        | .ok opened => (events source opened rest).map (event :: ·)
    else if c = '&' then
      match h : passReference source cs with
      | .error e => .error e
      | .ok rest =>
        have := length_le_of_passReference h
        events source opened rest
    else events source opened cs
termination_by cs.length

/-- The events of a document. -/
def Event.read (document : String) : Except MarkupError (List Event) :=
  let source := Text.dropByteOrderMark document.toList
  events source [] source

end LaserCut.Markup
