import StackTemplate.Value.Path

/-!
# Writing documents as JSON

The compact form has no blanks at all; its digest identifies a document. The
indented form puts every item and entry on a line of its own. Every writer
takes the text that follows, so nothing is ever copied.
-/

namespace StackTemplate.Json

/-- Documents write their numbers with an exponent below 0.00001 and from
10 ^ 16 on; integral ones keep a zero after the point. -/
def numberLayout : Decimal.Layout := ⟨.toEven, some (-5, 16), true, true⟩

/-- One character inside a quoted text. Quotes, backslashes and control
characters are escaped. -/
def writeChar (c : Char) (rest : List Char) : List Char :=
  if c = '"' then '\\' :: '"' :: rest
  else if c = '\\' then '\\' :: '\\' :: rest
  else if c = '\n' then '\\' :: 'n' :: rest
  else if c = '\r' then '\\' :: 'r' :: rest
  else if c = '\t' then '\\' :: 't' :: rest
  else if c = '\x08' then '\\' :: 'b' :: rest
  else if c = '\x0c' then '\\' :: 'f' :: rest
  else if c.toNat < 0x20 then
    '\\' :: 'u' :: '0' :: '0' :: Nat.digitChar (c.toNat / 16) :: Nat.digitChar (c.toNat % 16) ::
      rest
  else c :: rest

/-- A text in quotes. -/
def writeString (text : String) (rest : List Char) : List Char :=
  '"' :: text.toList.foldr writeChar ('"' :: rest)

/-- A scalar; lists and mappings are left out. -/
def writeScalar (value : Value) (rest : List Char) : List Char :=
  match value with
  | .boolean true => 't' :: 'r' :: 'u' :: 'e' :: rest
  | .boolean false => 'f' :: 'a' :: 'l' :: 's' :: 'e' :: rest
  | .integer number => Text.integer number.toInt ++ rest
  | .decimal number => numberLayout.write number ++ rest
  | .string text => writeString text rest
  | _ => 'n' :: 'u' :: 'l' :: 'l' :: rest

mutual

/-- The compact form of a value. -/
def write : Value → List Char → List Char
  | .array [], rest => '[' :: ']' :: rest
  | .array (item :: items), rest => '[' :: write item (writeItems items rest)
  | .object [], rest => '\x7b' :: '\x7d' :: rest
  | .object ((key, value) :: entries), rest =>
    '\x7b' :: writeString key (':' :: write value (writeEntries entries rest))
  | scalar, rest => writeScalar scalar rest

/-- The items after the first one, and the end of the list. -/
def writeItems : List Value → List Char → List Char
  | [], rest => ']' :: rest
  | item :: items, rest => ',' :: write item (writeItems items rest)

/-- The entries after the first one, and the end of the mapping. -/
def writeEntries : List (String × Value) → List Char → List Char
  | [], rest => '\x7d' :: rest
  | (key, value) :: entries, rest =>
    ',' :: writeString key (':' :: write value (writeEntries entries rest))

end

/-- The compact form of a value. -/
def render (value : Value) : String := String.ofList (write value [])

/-- A new line with two blanks for every level. -/
def newLine (level : Nat) (rest : List Char) : List Char :=
  '\n' :: (List.replicate (2 * level) ' ' ++ rest)

mutual

/-- The indented form of a value inside `level` lists and mappings. -/
def writeIndented (level : Nat) : Value → List Char → List Char
  | .array [], rest => '[' :: ']' :: rest
  | .array (item :: items), rest =>
    '[' :: newLine (level + 1)
      (writeIndented (level + 1) item (writeIndentedItems level items rest))
  | .object [], rest => '\x7b' :: '\x7d' :: rest
  | .object ((key, value) :: entries), rest =>
    '\x7b' :: newLine (level + 1) (writeString key (':' :: ' ' ::
      writeIndented (level + 1) value (writeIndentedEntries level entries rest)))
  | scalar, rest => writeScalar scalar rest

/-- The items after the first one, and the end of the list. -/
def writeIndentedItems (level : Nat) : List Value → List Char → List Char
  | [], rest => newLine level (']' :: rest)
  | item :: items, rest =>
    ',' :: newLine (level + 1)
      (writeIndented (level + 1) item (writeIndentedItems level items rest))

/-- The entries after the first one, and the end of the mapping. -/
def writeIndentedEntries (level : Nat) : List (String × Value) → List Char → List Char
  | [], rest => newLine level ('\x7d' :: rest)
  | (key, value) :: entries, rest =>
    ',' :: newLine (level + 1) (writeString key (':' :: ' ' ::
      writeIndented (level + 1) value (writeIndentedEntries level entries rest)))

end

/-- The indented form of a value, without a line end after it. -/
def renderIndented (value : Value) : String := String.ofList (writeIndented 0 value [])

/-- One step of a path: keys are texts, positions are numbers. -/
def writeSegment (segment : Segment) (rest : List Char) : List Char :=
  match segment with
  | .key name => writeString name rest
  | .index position => Text.natural position ++ rest

/-- The compact form of a path, a list of its steps. -/
def renderPath (path : Path) : String :=
  let steps := path.map fun segment => writeSegment segment []
  String.ofList ('[' :: Text.joinChars [','] steps ++ [']'])

end StackTemplate.Json
