/-!
# Markup errors

Why a document is refused as markup, and the sentences that say so.
-/

namespace LaserCut.Markup

/-- What is wrong with markup at a place. -/
inductive Fault
  | instructionNotClosed
  | commentNotClosed
  | doctypeNotClosed
  | cdataNotClosed
  | tagNotClosed
  | unknownMarkup
  | referenceNotClosed
  | doctypeWithoutName
  | mismatchedEnd (expected found : String)
  | unmatchedEnd (name : String)
deriving DecidableEq, Repr

/-- What is wrong with the attributes of a tag. Places count bytes from the start of the tag. -/
inductive AttributeFault
  | expectedEquals (place : Nat)
  | expectedValue (place : Nat)
  | unquotedValue (place : Nat)
  | unclosedValue (place : Nat) (quote : Char)
  | duplicated (place previous : Nat)
deriving DecidableEq, Repr

/-- Why a document is refused as markup. Offsets count bytes from the start of the document. -/
inductive MarkupError
  | fault (fault : Fault) (offset : Nat)
  | inTag (fault : AttributeFault)
  | unclosedElements
deriving DecidableEq, Repr

def Fault.message : Fault → String
  | instructionNotClosed =>
    "syntax error: processing instruction or xml declaration not closed: " ++
      "`?>` not found before end of input"
  | commentNotClosed => "syntax error: comment not closed: `-->` not found before end of input"
  | doctypeNotClosed => "syntax error: DOCTYPE not closed: `>` not found before end of input"
  | cdataNotClosed => "syntax error: CDATA not closed: `]]>` not found before end of input"
  | tagNotClosed => "syntax error: tag not closed: `>` not found before end of input"
  | unknownMarkup => "syntax error: unknown or missed symbol in markup"
  | referenceNotClosed => "ill-formed document: entity or character reference not closed: " ++
    "`;` not found before end of input"
  | doctypeWithoutName => "ill-formed document: " ++
    "`<!DOCTYPE>` declaration does not contain a name of a document type"
  | mismatchedEnd expected found =>
    "ill-formed document: expected `</" ++ expected ++ ">`, but `</" ++ found ++ ">` was found"
  | unmatchedEnd name =>
    "ill-formed document: close tag `</" ++ name ++ ">` does not match any open tag"

def AttributeFault.message : AttributeFault → String
  | expectedEquals place =>
    "position " ++ toString place ++ ": attribute key must be directly followed by `=` or space"
  | expectedValue place =>
    "position " ++ toString place ++ ": `=` must be followed by an attribute value"
  | unquotedValue place =>
    "position " ++ toString place ++ ": attribute value must be enclosed in `\"` or `'`"
  | unclosedValue place quote =>
    "position " ++ toString place ++ ": missing closing quote `" ++ quote.toString ++
      "` in attribute value"
  | duplicated place previous =>
    "position " ++ toString place ++ ": duplicated attribute, previous declaration at position " ++
      toString previous

def MarkupError.message : MarkupError → String
  | .fault f offset => f.message ++ " at position " ++ toString offset
  | .inTag f => f.message
  | .unclosedElements => "unexpected end of document, unclosed elements remain"

end LaserCut.Markup
