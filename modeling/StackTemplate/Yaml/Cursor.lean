/-!
# A place in a YAML text

The cursor knows the text that is still to be read and where it is: how many
octets and lines have been passed, and the column in the current line.
-/

namespace StackTemplate.Yaml

/-- Whether a character may stand in a text at all. -/
def isAllowed (c : Char) : Bool :=
  let n := c.toNat
  n == 0x9 || n == 0xA || n == 0xD || (0x20 ≤ n && n ≤ 0x7E) || n == 0x85 ||
    (0xA0 ≤ n && n ≤ 0xD7FF) || (0xE000 ≤ n && n ≤ 0xFFFD) || 0x10000 ≤ n

/-- Blanks inside a line. -/
def isBlank (c : Char) : Bool := c = ' ' || c = '\t'

/-- Characters that end a line. -/
def isBreak (c : Char) : Bool :=
  c = '\n' || c = '\r' || c = '\u0085' || c = '\u2028' || c = '\u2029'

/-- Characters of anchors, directive names and tag handles. -/
def isWordChar (c : Char) : Bool := c.isAlphanum || c = '_' || c = '-'

/-- A place in a text. -/
structure Cursor where
  /-- The text that is still to be read. -/
  rest : List Char
  /-- The number of octets passed. -/
  index : Nat := 0
  /-- The number of lines passed. -/
  line : Nat := 0
  /-- The number of characters passed in the current line. -/
  column : Nat := 0

namespace Cursor

/-- Whether a character some places ahead is the given one. -/
def sees (cursor : Cursor) (c : Char) (ahead : Nat) : Bool := cursor.rest[ahead]? == some c

/-- Whether the next characters are the given ones. -/
def starts (cursor : Cursor) (text : List Char) : Bool := text.isPrefixOf cursor.rest

/-- Whether the text is at its end. -/
def atEnd (cursor : Cursor) : Bool := cursor.rest.isEmpty

/-- Whether the next character satisfies a condition. -/
def next (cursor : Cursor) (condition : Char → Bool) : Bool :=
  match cursor.rest with
  | c :: _ => condition c
  | [] => false

/-- Whether a line ends here. -/
def atBreakOrEnd (cursor : Cursor) : Bool := cursor.atEnd || cursor.next isBreak

/-- Whether a blank, a line end or the end of the text is some places ahead. -/
def blankOrEnd (cursor : Cursor) (ahead : Nat) : Bool :=
  match cursor.rest[ahead]? with
  | some c => isBlank c || isBreak c
  | none => true

/-- Passes some characters of a line. -/
def advance (cursor : Cursor) : Nat → Cursor
  | 0 => cursor
  | count + 1 =>
    match cursor.rest with
    | [] => cursor
    | c :: rest =>
      advance ⟨rest, cursor.index + c.utf8Size, cursor.line, cursor.column + 1⟩ count

/-- Passes the characters of a line that satisfy a condition, and returns them. -/
def takeWhile (cursor : Cursor) (condition : Char → Bool) : List Char × Cursor :=
  let taken := cursor.rest.takeWhile condition
  (taken, cursor.advance taken.length)

/-- Passes the characters of a line that satisfy a condition. -/
def skipWhile (cursor : Cursor) (condition : Char → Bool) : Cursor :=
  (cursor.takeWhile condition).2

/-- Passes one line end, if there is one, and returns what it stands for. Only
the two separators of Unicode stand for themselves. -/
def takeBreak (cursor : Cursor) : List Char × Cursor :=
  let passing (octets : Nat) (text rest : List Char) : List Char × Cursor :=
    (text, ⟨rest, cursor.index + octets, cursor.line + 1, 0⟩)
  match cursor.rest with
  | '\r' :: '\n' :: rest => passing 2 ['\n'] rest
  | c :: rest =>
    if c = '\u2028' ∨ c = '\u2029' then passing c.utf8Size [c] rest
    else if isBreak c then passing c.utf8Size ['\n'] rest
    else ([], cursor)
  | [] => ([], cursor)

/-- Passes one line end, if there is one. -/
def skipBreak (cursor : Cursor) : Cursor := cursor.takeBreak.2

/-- Passes the rest of a line, without its end. -/
def skipLine (cursor : Cursor) : Cursor := cursor.skipWhile fun c => !isBreak c

/-- Passes a comment, if one starts here. -/
def skipComment (cursor : Cursor) : Cursor :=
  if cursor.sees '#' 0 then cursor.skipLine else cursor

/-- Whether a line starts here with a mark between documents. -/
def atDocumentMark (cursor : Cursor) : Bool :=
  cursor.column == 0 && (cursor.starts ['-', '-', '-'] || cursor.starts ['.', '.', '.']) &&
    cursor.blankOrEnd 3

end Cursor

end StackTemplate.Yaml
