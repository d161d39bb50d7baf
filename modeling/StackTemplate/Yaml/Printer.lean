import StackTemplate.Yaml.Cursor
import StackTemplate.Yaml.Plain

/-!
# Writing documents as YAML

Every item and entry has a line of its own. Items of a list stand under the key
of the list, without deeper indentation. A text is written plainly if it reads
back as the same text, and in quotes or, if it has several lines, as a block
otherwise.
-/

namespace StackTemplate.Yaml

/-- Documents write their numbers with an exponent below 0.00001 and from
10 ^ 16 on; integral ones keep a zero after the point. -/
def numberLayout : Decimal.Layout := ⟨.toEven, some (-5, 16), true, false⟩

/-- Characters that are written as they are. -/
def isShownChar (c : Char) : Bool :=
  let n := c.toNat
  n == 0xA || (0x20 ≤ n && n ≤ 0x7E) || (0xA0 ≤ n && n ≤ 0xFFFD && n != 0xFEFF) || 0x10000 ≤ n

/-- Blanks, line ends and the character of number zero. -/
def isGapChar (c : Char) : Bool := isBlank c || isBreak c || c = '\x00'

/-- Whether a gap or the end follows. -/
def gapAhead (rest : List Char) : Bool :=
  match rest with
  | c :: _ => isGapChar c
  | [] => true

/-- Whether a text starts like something that is no plain text. -/
def startsLikeIndicator (cs : List Char) : Bool :=
  ['-', '-', '-'].isPrefixOf cs || ['.', '.', '.'].isPrefixOf cs ||
    match cs with
    | c :: rest =>
      ['#', ',', '[', ']', '\x7b', '\x7d', '&', '*', '!', '|', '>', '\'', '"', '%', '@',
        '\x60'].contains c ||
        ((c = '?' || c = ':' || c = '-') && gapAhead rest)
    | [] => false

/-- Whether a colon before a gap or a number sign after one stands inside. -/
def holdsIndicator : List Char → Bool
  | [] => false
  | c :: rest =>
    (match rest with
      | d :: after => (d = ':' && gapAhead after) || (d = '#' && isGapChar c)
      | [] => false) || holdsIndicator rest

/-- Whether a character of one kind stands right before one of another. -/
def holdsPair (first second : Char → Bool) : List Char → Bool
  | c :: d :: rest => (first c && second d) || holdsPair first second (d :: rest)
  | _ => false

/-- How a text is written. -/
inductive Style where
  /-- As it is. -/
  | plain
  /-- In single quotes. -/
  | single
  /-- In double quotes, with escapes. -/
  | double
  /-- As a block that keeps its lines. -/
  | literal
  deriving DecidableEq

/-- Whether a text has a blank before or after a line end, or characters that
must be escaped. -/
def needsEscapes (cs : List Char) : Bool :=
  holdsPair (· = ' ') isBreak cs || cs.any fun c => !isShownChar c

/-- Whether a text may stand in single quotes. -/
def allowsSingle (cs : List Char) : Bool :=
  !(needsEscapes cs || holdsPair isBreak (· = ' ') cs)

/-- Whether a text may stand without quotes. -/
def allowsPlain (cs : List Char) : Bool :=
  allowsSingle cs && !cs.any isBreak && cs.head? != some ' ' && cs.getLast? != some ' ' &&
    !startsLikeIndicator cs && !holdsIndicator cs

/-- Whether a text may stand in a block. -/
def allowsLiteral (cs : List Char) : Bool := !needsEscapes cs && cs.getLast? != some ' '

/-- Whether a text without quotes would be taken for a text by every reader. Some
readers take digits after a leading zero for a number. -/
def readsAsText (text : String) : Bool :=
  match plainValue? text with
  | some (.string _) => !isZeroPadded text.toList
  | _ => false

/-- The style in which a text is written. -/
def styleOf (text : String) : Style :=
  let cs := text.toList
  let quoted := if allowsSingle cs then .single else .double
  if cs.contains '\n' then if allowsLiteral cs then .literal else .double
  else if readsAsText text && allowsPlain cs then .plain
  else quoted

/-- Two hexadecimal digits or more, in upper case. -/
def hexDigits (width n : Nat) : List Char :=
  let digits := (Nat.toDigits 16 n).map Char.toUpper
  List.replicate (width - digits.length) '0' ++ digits

/-- One character inside double quotes. -/
def doubleQuotedChar (c : Char) : List Char :=
  let n := c.toNat
  if c = '"' then ['\\', '"']
  else if c = '\\' then ['\\', '\\']
  else if isShownChar c && !isBreak c then [c]
  else if n = 0x0 then ['\\', '0']
  else if n = 0x7 then ['\\', 'a']
  else if n = 0x8 then ['\\', 'b']
  else if n = 0x9 then ['\\', 't']
  else if n = 0xA then ['\\', 'n']
  else if n = 0xB then ['\\', 'v']
  else if n = 0xC then ['\\', 'f']
  else if n = 0xD then ['\\', 'r']
  else if n = 0x1B then ['\\', 'e']
  else if n = 0x85 then ['\\', 'N']
  else if n = 0x2028 then ['\\', 'L']
  else if n = 0x2029 then ['\\', 'P']
  else if n ≤ 0xFF then '\\' :: 'x' :: hexDigits 2 n
  else if n ≤ 0xFFFF then '\\' :: 'u' :: hexDigits 4 n
  else '\\' :: 'U' :: hexDigits 8 n

/-- Indentation. -/
def indentation (column : Nat) (rest : List Char) : List Char :=
  List.replicate column ' ' ++ rest

/-- What follows the indicator of a block: the indentation, if the text does not
show it, and what to do with the line ends after it. -/
def literalHints (cs : List Char) : List Char :=
  let indent := match cs with
    | c :: _ => if c = ' ' || isBreak c then ['2'] else []
    | [] => []
  let chomping := match cs.reverse with
    | c :: rest =>
      if !isBreak c then ['-']
      else
        match rest with
        | [] => ['+']
        | d :: _ => if isBreak d then ['+'] else []
    | [] => ['-']
  indent ++ chomping

/-- The lines of a block, each indented unless it is empty. -/
def literalLines (column : Nat) : (atStart : Bool) → List Char → List Char → List Char
  | atStart, [], rest => if atStart then rest else '\n' :: rest
  | atStart, c :: cs, rest =>
    if isBreak c then c :: literalLines column true cs rest
    else
      let tail := c :: literalLines column false cs rest
      if atStart then indentation column tail else tail

/-- A text inside single quotes and the closing quote. A line end of the text is
followed by indentation, which a reader drops. -/
def singleQuotedTail (column : Nat) : (atStart : Bool) → List Char → List Char
  | atStart, [] => if atStart then indentation column ['\''] else ['\'']
  | atStart, c :: cs =>
    if isBreak c then c :: singleQuotedTail column true cs
    else
      let tail := c :: singleQuotedTail column false cs
      let tail := if c = '\'' then '\'' :: tail else tail
      if atStart then indentation column tail else tail

/-- A text that is no block. Its lines after the first start at the given
column. -/
def inlineText (column : Nat) (text : String) : List Char :=
  let cs := text.toList
  match styleOf text with
  | .plain => cs
  | .single => '\'' :: singleQuotedTail column false cs
  | _ => '"' :: cs.flatMap doubleQuotedChar ++ ['"']

/-- A text and the end of its last line. Its lines after the first start at the
given column. -/
def writeText (column : Nat) (text : String) (rest : List Char) : List Char :=
  if styleOf text = .literal then
    '|' :: literalHints text.toList ++ '\n' :: literalLines column true text.toList rest
  else inlineText column text ++ '\n' :: rest

/-- A scalar or an empty collection, and the end of its last line. -/
def writeScalar (column : Nat) (value : Value) (rest : List Char) : List Char :=
  match value with
  | .null => "null".toList ++ '\n' :: rest
  | .boolean true => "true".toList ++ '\n' :: rest
  | .boolean false => "false".toList ++ '\n' :: rest
  | .integer number => Text.integer number.toInt ++ '\n' :: rest
  | .decimal number => numberLayout.write number ++ '\n' :: rest
  | .string text => writeText column text rest
  | .array _ => '[' :: ']' :: '\n' :: rest
  | .object _ => '\x7b' :: '\x7d' :: '\n' :: rest

/-- Keys of one line and at most 128 octets stand before their colon. -/
def isSimpleKey (key : String) : Bool := !key.toList.any isBreak && key.utf8ByteSize ≤ 128

mutual

/-- A value whose first line is already indented to the column. -/
def write (column : Nat) : Value → List Char → List Char
  | .array (item :: items), rest =>
    '-' :: ' ' :: write (column + 2) item (writeItems column items rest)
  | .object (entry :: entries), rest =>
    writeEntry column entry (writeEntries column entries rest)
  | scalar, rest => writeScalar column scalar rest

/-- A value after the colon of its key, which starts at the column. -/
def writeUnderKey (column : Nat) : Value → List Char → List Char
  | .array (item :: items), rest =>
    '\n' :: indentation column
      ('-' :: ' ' :: write (column + 2) item (writeItems column items rest))
  | .object (entry :: entries), rest =>
    '\n' :: indentation (column + 2)
      (writeEntry (column + 2) entry (writeEntries (column + 2) entries rest))
  | scalar, rest => ' ' :: writeScalar (column + 2) scalar rest

/-- An entry whose first line is already indented to the column. -/
def writeEntry (column : Nat) : String × Value → List Char → List Char
  | (key, value), rest =>
    if isSimpleKey key then
      inlineText (column + 2) key ++ ':' :: writeUnderKey column value rest
    else
      '?' :: ' ' :: writeText (column + 2) key
        (indentation column (':' :: ' ' :: write (column + 2) value rest))

/-- Items, each on a line of its own. -/
def writeItems (column : Nat) : List Value → List Char → List Char
  | [], rest => rest
  | item :: items, rest =>
    indentation column ('-' :: ' ' :: write (column + 2) item (writeItems column items rest))

/-- Entries, each on a line of its own. -/
def writeEntries (column : Nat) : List (String × Value) → List Char → List Char
  | [], rest => rest
  | entry :: entries, rest =>
    indentation column (writeEntry column entry (writeEntries column entries rest))

end

/-- The whole text of a document. A block that is the whole document is
indented, too. -/
def render (value : Value) : String :=
  match value with
  | .string text => String.ofList (writeText 2 text [])
  | value => String.ofList (write 0 value [])

end StackTemplate.Yaml
