/-!
# Splitting and joining

A text is split at the leftmost occurrences of a delimiter that do not
overlap. The empty delimiter occurs before every character and at the end, so
it yields an empty piece, every character on its own, and an empty piece.
Joining the pieces with the delimiter gives the text back.
-/

namespace StackTemplate.Text

/-- Puts a character in front of the first piece. -/
def extendFirst (c : Char) : List (List Char) → List (List Char)
  | [] => [[c]]
  | piece :: pieces => (c :: piece) :: pieces

/-- The pieces between the occurrences of a non-empty delimiter. The counter
says how many characters still belong to the occurrence just met. -/
def piecesAfter (delimiter : List Char) : Nat → List Char → List (List Char)
  | _, [] => [[]]
  | skip + 1, _ :: cs => piecesAfter delimiter skip cs
  | 0, c :: cs =>
    if delimiter.isPrefixOf (c :: cs) then
      [] :: piecesAfter delimiter (delimiter.length - 1) cs
    else extendFirst c (piecesAfter delimiter 0 cs)

/-- The pieces of a text around a delimiter. -/
def splitChars (delimiter text : List Char) : List (List Char) :=
  if delimiter = [] then [] :: (text.map fun c => [c]) ++ [[]]
  else piecesAfter delimiter 0 text

/-- The pieces of a text around a delimiter. -/
def split (delimiter text : String) : List String :=
  (splitChars delimiter.toList text.toList).map String.ofList

/-- The pieces with the delimiter between neighbours. -/
def joinChars (delimiter : List Char) : List (List Char) → List Char
  | [] => []
  | [piece] => piece
  | piece :: pieces => piece ++ delimiter ++ joinChars delimiter pieces

/-- The texts with the delimiter between neighbours. -/
def join (delimiter : String) (texts : List String) : String :=
  String.ofList (joinChars delimiter.toList (texts.map String.toList))

/-- Whether a text begins with another one. -/
def startsWith (text start : String) : Bool := start.toList.isPrefixOf text.toList

end StackTemplate.Text
