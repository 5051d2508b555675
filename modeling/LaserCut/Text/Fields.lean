/-!
# Blanks and fields

How attribute text is cut up: white space in the sense of the Unicode property `White_Space`,
trimming, and splitting at separators.

* `isBlank`: the property, as its 25 code points;
* `trim`: without the blanks at both ends;
* `split`, `fields`: the pieces between separators, and those of them that are not empty;
* `cutAt`: the text before and after the first separator.
-/

namespace LaserCut.Text

/-- The code points with the Unicode property `White_Space`. -/
def isBlank (c : Char) : Bool :=
  (0x09 ≤ c.val && c.val ≤ 0x0D) || c.val == 0x20 || c.val == 0x85 || c.val == 0xA0 ||
  c.val == 0x1680 || (0x2000 ≤ c.val && c.val ≤ 0x200A) || c.val == 0x2028 || c.val == 0x2029 ||
  c.val == 0x202F || c.val == 0x205F || c.val == 0x3000

/-- A text without the blanks it ends in. -/
def trimEnd (cs : List Char) : List Char :=
  (cs.reverse.dropWhile isBlank).reverse

/-- A text without the blanks at both ends. -/
def trim (cs : List Char) : List Char :=
  trimEnd (cs.dropWhile isBlank)

/-- The string form of `trim`. -/
def trimmed (s : String) : String :=
  String.ofList (trim s.toList)

/-- The pieces between separators; there is one more piece than there are separators. -/
def split (sep : Char → Bool) : List Char → List (List Char)
  | [] => [[]]
  | c :: cs =>
    if sep c then [] :: split sep cs
    else
      match split sep cs with
      | [] => [[c]]
      | piece :: pieces => (c :: piece) :: pieces

/-- The pieces between separators that are not empty. -/
def fields (sep : Char → Bool) (cs : List Char) : List (List Char) :=
  (split sep cs).filter (!·.isEmpty)

/-- The separators of a list of numbers: commas and blanks. -/
def isListSeparator (c : Char) : Bool :=
  c == ',' || isBlank c

/-- The text before and after the first `mark`, if there is one. -/
def cutAt (mark : Char) : List Char → Option (List Char × List Char)
  | [] => none
  | c :: cs =>
    if c = mark then some ([], cs)
    else (cutAt mark cs).map fun (before, after) => (c :: before, after)

/-- A text without the byte order mark that it may begin with. -/
def dropByteOrderMark : List Char → List Char
  | '\uFEFF' :: cs => cs
  | cs => cs

/-- The number of bytes that a text takes in UTF-8. -/
def byteSize (cs : List Char) : Nat :=
  cs.foldr (fun c n => c.utf8Size + n) 0

/-- Where `rest` begins in a text that ends in it, counted in bytes. -/
def offset (whole rest : List Char) : Nat :=
  byteSize whole - byteSize rest

end LaserCut.Text
