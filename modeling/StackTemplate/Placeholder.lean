import StackTemplate.Value.Digest

/-!
# Placeholders in texts

A text is split into literal pieces and placeholders. A placeholder is a mark,
an opening brace, a name and a closing brace. A name that is empty or starts
with an exclamation mark is none, and an opening brace that is never closed
makes the whole rest literal. Placeholders whose names have a value are
replaced by it, the others stay as they are and their names are reported.
-/

namespace StackTemplate.Placeholder

/-- The mark in front of the opening brace. -/
inductive Form where
  /-- Replaced by the value as it is. -/
  | dollar
  /-- Replaced by the ASCII letters and digits of the value. -/
  | ampersand
  deriving DecidableEq, Repr

/-- Which marks introduce placeholders. -/
structure Forms where
  /-- The forms that are recognised; the marks of others are plain text. -/
  recognised : List Form

/-- Both marks, as in keys. -/
def Forms.both : Forms := ⟨[.dollar, .ampersand]⟩

/-- The dollar sign only, as in substituted texts. -/
def Forms.dollar : Forms := ⟨[.dollar]⟩

/-- The character of a mark. -/
def Form.mark : Form → Char
  | .dollar => '$'
  | .ampersand => '&'

/-- The placeholder form that a character introduces. -/
def Forms.ofMark? (forms : Forms) (c : Char) : Option Form :=
  forms.recognised.find? fun form => form.mark = c

/-- A part of a text. -/
inductive Piece where
  /-- Text that is left alone. -/
  | literal (text : List Char)
  /-- A place for the value of a name. -/
  | hole (form : Form) (name : List Char)
  deriving DecidableEq, Repr

/-- Whether the text between braces is a name. -/
def isName : List Char → Bool
  | [] => false
  | c :: _ => c != '!'

/-- A mark, an opening brace, a name and a closing brace. -/
def spelled (form : Form) (name : List Char) : List Char :=
  form.mark :: '\x7b' :: name ++ ['\x7d']

/-- The piece that a complete pair of braces makes. -/
def Piece.ofBraces (form : Form) (name : List Char) : Piece :=
  if isName name then .hole form name else .literal (spelled form name)

/-- The text of a piece. -/
def Piece.source : Piece → List Char
  | .literal text => text
  | .hole form name => spelled form name

mutual

/-- The pieces of a text. -/
def pieces (forms : Forms) : List Char → List Piece
  | [] => []
  | c :: cs =>
    match forms.ofMark? c, cs with
    | some form, '\x7b' :: rest => piecesInside forms form [] rest
    | _, cs => .literal [c] :: pieces forms cs

/-- The pieces of a text that goes on inside a pair of braces. The part of the
name met so far is kept in reverse. -/
def piecesInside (forms : Forms) (form : Form) (met : List Char) : List Char → List Piece
  | [] => [.literal (form.mark :: '\x7b' :: met.reverse)]
  | c :: cs =>
    if c = '\x7d' then Piece.ofBraces form met.reverse :: pieces forms cs
    else piecesInside forms form (c :: met) cs

end

/-- The text that a value is replaced by. Lists and mappings are represented by
a short digest, null has no text. -/
def valueText? (value : Value) : Option String :=
  match value with
  | .array _ => some value.shortDigest
  | .object _ => some value.shortDigest
  | scalar => scalar.scalarText?

/-- The ASCII letters and digits of a text. -/
def alphanumerics (text : List Char) : List Char := text.filter Char.isAlphanum

/-- The text that a value is replaced by after a mark. -/
def rendering? (form : Form) (value : Value) : Option (List Char) :=
  (valueText? value).map fun text =>
    match form with
    | .dollar => text.toList
    | .ampersand => alphanumerics text.toList

/-- A text after substitution. -/
structure Substituted where
  /-- The text. -/
  text : String
  /-- The names of the placeholders that stayed, in order. -/
  unresolved : List String
  deriving DecidableEq

/-- Whether no placeholder stayed. -/
def Substituted.isComplete (s : Substituted) : Bool := s.unresolved.isEmpty

/-- What a piece contributes to the text, under a choice of values. -/
def Piece.fill (lookup : String → Option Value) : Piece → List Char
  | .literal text => text
  | .hole form name =>
    match (lookup (String.ofList name)).bind (rendering? form) with
    | some text => text
    | none => spelled form name

/-- The name of a placeholder that stays, under a choice of values. -/
def Piece.unresolved? (lookup : String → Option Value) : Piece → Option String
  | .literal _ => none
  | .hole form name =>
    match (lookup (String.ofList name)).bind (rendering? form) with
    | some _ => none
    | none => some (String.ofList name)

/-- Replaces every placeholder whose name has a value with a text. -/
def substituteForms (forms : Forms) (lookup : String → Option Value) (text : String) :
    Substituted :=
  let parts := pieces forms text.toList
  ⟨String.ofList (parts.flatMap (Piece.fill lookup)), parts.filterMap (Piece.unresolved? lookup)⟩

/-- Substitution with both marks. -/
def substitute (lookup : String → Option Value) (text : String) : Substituted :=
  substituteForms .both lookup text

/-- Substitution in which an ampersand is plain text. -/
def substituteDollar (lookup : String → Option Value) (text : String) : Substituted :=
  substituteForms .dollar lookup text

/-- The names of all placeholders, in order. -/
def names (text : String) : List String := (substitute (fun _ => none) text).unresolved

/-- Removes the exclamation mark after every dollar sign and opening brace. -/
def unescapeChars : List Char → List Char
  | '$' :: '\x7b' :: '!' :: rest => '$' :: '\x7b' :: unescapeChars rest
  | c :: rest => c :: unescapeChars rest
  | [] => []

/-- The final text: an escaped placeholder loses its exclamation mark. -/
def unescape (text : String) : String := String.ofList (unescapeChars text.toList)

end StackTemplate.Placeholder
