import StackTemplate.Json.Tree

/-!
# Reading JSON

The grammar is the strict one: no comments, no trailing commas, no leading
zeros, no control characters in texts, and nothing but blanks around the
document. Half a character may be spelled, but no document holds it. Every reader
returns what it has read and the text after it.
-/

namespace StackTemplate.Json

/-- The four characters that may stand between the parts of a text. -/
def isSpace (c : Char) : Bool := c = ' ' || c = '\n' || c = '\t' || c = '\r'

/-- Drops leading blanks. -/
def skipSpace (cs : List Char) : List Char := cs.dropWhile isSpace

/-- The value of a hexadecimal digit. -/
def hexDigit? (c : Char) : Option Nat :=
  if c.isDigit then some (c.toNat - '0'.toNat)
  else if 'a' ≤ c ∧ c ≤ 'f' then some (c.toNat - 'a'.toNat + 10)
  else if 'A' ≤ c ∧ c ≤ 'F' then some (c.toNat - 'A'.toNat + 10)
  else none

/-- The number of four hexadecimal digits. -/
def hexUnit? (a b c d : Char) : Option Nat :=
  match hexDigit? a, hexDigit? b, hexDigit? c, hexDigit? d with
  | some a, some b, some c, some d => some (((a * 16 + b) * 16 + c) * 16 + d)
  | _, _, _, _ => none

/-- The character that a backslash and a letter stand for. -/
def simpleEscape? (c : Char) : Option Char :=
  match c with
  | '"' => some '"'
  | '\\' => some '\\'
  | '/' => some '/'
  | 'b' => some '\x08'
  | 'f' => some '\x0c'
  | 'n' => some '\n'
  | 'r' => some '\r'
  | 't' => some '\t'
  | _ => none

/-- What an escape or a character of a quoted text spells. -/
inductive Piece where
  /-- A character. -/
  | whole (c : Char)
  /-- The first unit of a character beyond the basic plane. -/
  | high (unit : Nat)
  /-- The second unit of a character beyond the basic plane. -/
  | low (unit : Nat)

/-- What a unit of sixteen bits spells. -/
def Piece.ofUnit (unit : Nat) : Piece :=
  if unit < 0xD800 ∨ 0xDFFF < unit then .whole (Char.ofNat unit)
  else if unit < 0xDC00 then .high unit
  else .low unit

/-- The characters that pieces spell. Neither half of a character may stand
alone. -/
def joinPieces? : List Piece → Option (List Char)
  | [] => some []
  | .whole c :: pieces => (joinPieces? pieces).map (c :: ·)
  | .high high :: .low low :: pieces =>
    (joinPieces? pieces).map
      (Char.ofNat (0x10000 + (high - 0xD800) * 0x400 + (low - 0xDC00)) :: ·)
  | _ => none

/-- Puts a piece in front of the ones read after it. -/
def consPiece (piece : Piece) (tail : Option (List Piece × List Char)) :
    Option (List Piece × List Char) :=
  tail.map fun (pieces, rest) => (piece :: pieces, rest)

/-- The pieces of a quoted text, up to its closing quote. -/
def pieces? : List Char → Option (List Piece × List Char)
  | [] => none
  | '"' :: rest => some ([], rest)
  | '\\' :: 'u' :: a :: b :: c :: d :: rest =>
    match hexUnit? a b c d with
    | some unit => consPiece (.ofUnit unit) (pieces? rest)
    | none => none
  | '\\' :: c :: rest =>
    match simpleEscape? c with
    | some escaped => consPiece (.whole escaped) (pieces? rest)
    | none => none
  | c :: rest => if c.toNat < 0x20 ∨ c = '\\' then none else consPiece (.whole c) (pieces? rest)

/-- The rest of a quoted text, up to its closing quote; no text if it spells half
a character. -/
def stringTail (cs : List Char) : Option (Option String × List Char) :=
  (pieces? cs).map fun (pieces, rest) => ((joinPieces? pieces).map String.ofList, rest)

/-- A run of decimal digits and the text after it. -/
def takeDigits (cs : List Char) : List Char × List Char := cs.span Char.isDigit

/-- The integral digits: a zero alone, or digits that do not start with one. -/
def integralPart? (cs : List Char) : Option (List Char × List Char) :=
  match cs with
  | '0' :: rest => some (['0'], rest)
  | _ =>
    match takeDigits cs with
    | ([], _) => none
    | (digits, rest) => some (digits, rest)

/-- The digits after a point; without a point there are none. -/
def fractionPart? (cs : List Char) : Option (List Char × List Char) :=
  match cs with
  | '.' :: rest =>
    match takeDigits rest with
    | ([], _) => none
    | (digits, rest) => some (digits, rest)
  | _ => some ([], cs)

/-- The digits of an exponent, after its mark and its sign. -/
def exponentDigits? (negative : Bool) (cs : List Char) : Option (Option Int × List Char) :=
  match takeDigits cs with
  | ([], _) => none
  | (digits, rest) =>
    let magnitude := Nat.ofDigitChars 10 digits 0
    some (some (if negative then -magnitude else magnitude), rest)

/-- The exponent, if its mark follows. -/
def exponentPart? (cs : List Char) : Option (Option Int × List Char) :=
  match cs with
  | c :: rest =>
    if c = 'e' ∨ c = 'E' then
      match rest with
      | '-' :: rest => exponentDigits? true rest
      | '+' :: rest => exponentDigits? false rest
      | rest => exponentDigits? false rest
    else some (none, cs)
  | [] => some (none, [])

/-- A number after its sign. -/
def unsigned? (negative : Bool) (cs : List Char) : Option (Tree × List Char) := do
  let (integral, rest) ← integralPart? cs
  let (fraction, rest) ← fractionPart? rest
  let (exponent, rest) ← exponentPart? rest
  return (.number ⟨negative, integral, fraction, exponent⟩, rest)

/-- A number. -/
def number? (cs : List Char) : Option (Tree × List Char) :=
  match cs with
  | '-' :: rest => unsigned? true rest
  | _ => unsigned? false cs

/-- A scalar without quotes: a word or a number. -/
def plainScalar? (cs : List Char) : Option (Tree × List Char) :=
  match cs with
  | 'n' :: 'u' :: 'l' :: 'l' :: rest => some (.null, rest)
  | 't' :: 'r' :: 'u' :: 'e' :: rest => some (.boolean true, rest)
  | 'f' :: 'a' :: 'l' :: 's' :: 'e' :: rest => some (.boolean false, rest)
  | _ => number? cs

/-- A key with its colon. -/
def key? (cs : List Char) : Option (Option String × List Char) :=
  match skipSpace cs with
  | '"' :: rest =>
    match stringTail rest with
    | some (text, rest) =>
      match skipSpace rest with
      | ':' :: rest => some (text, rest)
      | _ => none
    | none => none
  | _ => none

mutual

/-- A value. The first argument bounds the nesting and the number of items. -/
def tree? : Nat → List Char → Option (Tree × List Char)
  | 0, _ => none
  | fuel + 1, cs =>
    match skipSpace cs with
    | '"' :: rest => (stringTail rest).map fun (text, rest) => (.string text, rest)
    | '[' :: rest =>
      match skipSpace rest with
      | ']' :: rest => some (.array [], rest)
      | rest => (items? fuel rest).map fun (items, rest) => (.array items, rest)
    | '\x7b' :: rest =>
      match skipSpace rest with
      | '\x7d' :: rest => some (.object [], rest)
      | rest => (members? fuel rest).map fun (members, rest) => (.object members, rest)
    | rest => plainScalar? rest

/-- One item or more, and the end of the list. -/
def items? : Nat → List Char → Option (List Tree × List Char)
  | 0, _ => none
  | fuel + 1, cs => do
    let (item, rest) ← tree? fuel cs
    match skipSpace rest with
    | ',' :: rest => (items? fuel rest).map fun (items, rest) => (item :: items, rest)
    | ']' :: rest => some ([item], rest)
    | _ => none

/-- One member or more, and the end of the mapping. -/
def members? : Nat → List Char → Option (List (Option String × Tree) × List Char)
  | 0, _ => none
  | fuel + 1, cs => do
    let (key, rest) ← key? cs
    let (value, rest) ← tree? fuel rest
    match skipSpace rest with
    | ',' :: rest => (members? fuel rest).map fun (members, rest) => ((key, value) :: members, rest)
    | '\x7d' :: rest => some ([(key, value)], rest)
    | _ => none

end

/-- Reads a whole text: one value with nothing but blanks around it. -/
def Tree.parse? (text : String) : Option Tree :=
  let cs := text.toList
  match tree? (2 * cs.length + 2) cs with
  | some (tree, rest) => if skipSpace rest = [] then some tree else none
  | none => none

/-- Reads a document. -/
def parse? (text : String) : Option Value :=
  (Tree.parse? text).bind Tree.toDocument?

end StackTemplate.Json
