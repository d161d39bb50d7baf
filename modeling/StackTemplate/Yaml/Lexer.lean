import StackTemplate.Yaml.Property
import StackTemplate.Yaml.Token

/-!
# From YAML text to tokens

The lexer keeps track of the indentation of the open blocks, and of the places
where a key may have started without an indicator of its own. When a colon
confirms such a place, the tokens for the key are put there. A key must end on
the line on which it starts, and within 1024 characters.
-/

namespace StackTemplate.Yaml

/-- A place where a key may have started. -/
structure PossibleKey where
  /-- The number of tokens before the key. -/
  tokenNumber : Nat
  /-- Whether the text is malformed unless a key starts here. -/
  required : Bool
  /-- Where it is. -/
  place : Cursor

/-- What has been read so far. -/
structure Lexer where
  /-- The text that is still to be read. -/
  cursor : Cursor
  /-- The tokens, the latest first. -/
  tokens : List Token := []
  /-- The number of tokens. -/
  count : Nat := 0
  /-- The column of the innermost block; outside all blocks it is -1. -/
  indent : Int := -1
  /-- The columns of the blocks around it, the innermost first. -/
  outerIndents : List Int := []
  /-- The number of open brackets and braces. -/
  flowLevel : Nat := 0
  /-- Whether a key may start here without an indicator. -/
  keyAllowed : Bool := true
  /-- The latest possible key inside every open bracket and brace, the
  innermost first, and outside of all. -/
  keys : List (Option PossibleKey) := [none]

namespace Lexer

/-- Whether the text is inside brackets or braces. -/
def inFlow (lexer : Lexer) : Bool := 0 < lexer.flowLevel

/-- Appends a token. -/
def push (lexer : Lexer) (token : Token) : Lexer :=
  { lexer with tokens := token :: lexer.tokens, count := lexer.count + 1 }

/-- Puts tokens at a place among those already there. -/
def insertAt (lexer : Lexer) (number : Nat) (tokens : List Token) : Lexer :=
  let after := lexer.count - number
  { lexer with
    tokens := lexer.tokens.take after ++ tokens.reverse ++ lexer.tokens.drop after
    count := lexer.count + tokens.length }

/-- Moves the cursor. -/
def moveTo (lexer : Lexer) (cursor : Cursor) : Lexer := { lexer with cursor }

/-- Says whether a key may start without an indicator. -/
def allowKey (lexer : Lexer) (allowed : Bool) : Lexer := { lexer with keyAllowed := allowed }

/-- Sets the latest possible key at the innermost level. -/
def setKey (lexer : Lexer) (key : Option PossibleKey) : Lexer :=
  { lexer with keys := key :: lexer.keys.tail }

/-- The latest possible key at the innermost level. -/
def key? (lexer : Lexer) : Option PossibleKey := lexer.keys.head?.join

/-- Gives up the latest possible key, which must not be required. -/
def dropKey (lexer : Lexer) : Option Lexer :=
  match lexer.key? with
  | some key => if key.required then none else some (lexer.setKey none)
  | none => some lexer

/-- Notes that a key may start here. -/
def noteKey (lexer : Lexer) : Option Lexer :=
  if lexer.keyAllowed then
    let required := !lexer.inFlow && lexer.indent == lexer.cursor.column
    lexer.dropKey.map fun lexer => lexer.setKey (some ⟨lexer.count, required, lexer.cursor⟩)
  else some lexer

/-- Whether a possible key is too far behind to be completed: on an earlier line
or more than 1024 octets back. -/
def isStale (cursor : Cursor) (key : PossibleKey) : Bool :=
  key.place.line < cursor.line || key.place.index + 1024 < cursor.index

/-- Gives up the possible keys that are too far behind. -/
def dropStaleKeys (lexer : Lexer) : Option Lexer := do
  let keys ← lexer.keys.mapM fun key =>
    match key with
    | some key =>
      if isStale lexer.cursor key then (if key.required then none else some none)
      else some (some key)
    | none => some none
  return { lexer with keys }

/-- The tokens for a block that starts at a column, if it is indented deeper
than the block around it. -/
def openBlock (lexer : Lexer) (column : Nat) (token : Token) : Lexer × List Token :=
  if !lexer.inFlow ∧ lexer.indent < column then
    ({ lexer with indent := column, outerIndents := lexer.indent :: lexer.outerIndents }, [token])
  else (lexer, [])

/-- Opens a block here if the indentation is deeper. -/
def openBlockHere (lexer : Lexer) (token : Token) : Lexer :=
  let (lexer, tokens) := lexer.openBlock lexer.cursor.column token
  tokens.foldl push lexer

/-- Closes the blocks that are indented deeper than a column, the innermost
first. -/
def closeBlocksFrom (column : Int) : List Int → Lexer → Lexer
  | [], lexer => lexer
  | outer :: outers, lexer =>
    if column < lexer.indent then
      closeBlocksFrom column outers
        ({ lexer with indent := outer, outerIndents := outers }.push .blockEnd)
    else lexer

/-- Closes the blocks that are indented deeper than a column. Inside brackets
and braces indentation does not matter. -/
def closeBlocks (lexer : Lexer) (column : Int) : Lexer :=
  if lexer.inFlow then lexer else closeBlocksFrom column lexer.outerIndents lexer

/-- Passes blanks, comments and line ends. Where a key may start, a tab does not
count as a blank. A byte order mark at the start of a line is passed, too, and
takes up a column. -/
def skipToToken : Nat → Lexer → Lexer
  | 0, lexer => lexer
  | fuel + 1, lexer =>
    let cursor := lexer.cursor
    let cursor :=
      if cursor.column = 0 ∧ cursor.sees '\uFEFF' 0 then cursor.advance 1 else cursor
    let tabs := lexer.inFlow || !lexer.keyAllowed
    let cursor := (cursor.skipWhile fun c => c = ' ' || (tabs && c = '\t')).skipComment
    if cursor.next isBreak then
      let lexer := lexer.moveTo cursor.skipBreak
      skipToToken fuel (if lexer.inFlow then lexer else lexer.allowKey true)
    else lexer.moveTo cursor

/-- A mark between documents. -/
def documentMark (lexer : Lexer) (token : Token) : Option Lexer := do
  let lexer ← (lexer.closeBlocks (-1)).dropKey
  return ((lexer.allowKey false).moveTo (lexer.cursor.advance 3)).push token

/-- A directive. -/
def directive (lexer : Lexer) : Option Lexer := do
  let lexer ← (lexer.closeBlocks (-1)).dropKey
  let (directive, cursor) ← directive? lexer.cursor
  let token := match directive with
    | .version major minor => .versionDirective major minor
    | .tag handle expansion => .tagDirective handle expansion
  return ((lexer.allowKey false).moveTo cursor).push token

/-- An opening bracket or brace. -/
def flowStart (lexer : Lexer) (token : Token) : Option Lexer := do
  let lexer ← lexer.noteKey
  let lexer :=
    { lexer with keys := none :: lexer.keys, flowLevel := lexer.flowLevel + 1, keyAllowed := true }
  return (lexer.push token).moveTo (lexer.cursor.advance 1)

/-- A closing bracket or brace. -/
def flowEnd (lexer : Lexer) (token : Token) : Option Lexer := do
  let lexer ← lexer.dropKey
  let lexer :=
    if lexer.inFlow then
      { lexer with keys := lexer.keys.tail, flowLevel := lexer.flowLevel - 1 }
    else lexer
  return ((lexer.allowKey false).push token).moveTo (lexer.cursor.advance 1)

/-- A comma between items. -/
def flowEntry (lexer : Lexer) : Option Lexer := do
  let lexer ← lexer.dropKey
  return ((lexer.allowKey true).push .flowEntry).moveTo (lexer.cursor.advance 1)

/-- A hyphen before an item. -/
def blockEntry (lexer : Lexer) : Option Lexer := do
  if !lexer.inFlow && !lexer.keyAllowed then none
  else
    let lexer ← (lexer.openBlockHere .blockSequenceStart).dropKey
    return ((lexer.allowKey true).push .blockEntry).moveTo (lexer.cursor.advance 1)

/-- A question mark before a key. -/
def explicitKey (lexer : Lexer) : Option Lexer := do
  if !lexer.inFlow && !lexer.keyAllowed then none
  else
    let lexer ← (lexer.openBlockHere .blockMappingStart).dropKey
    return ((lexer.allowKey (!lexer.inFlow)).push .key).moveTo (lexer.cursor.advance 1)

/-- A colon before a value. It completes a key that started without an
indicator, or stands for itself. -/
def value (lexer : Lexer) : Option Lexer :=
  match lexer.key? with
  | some key =>
    let (lexer, opening) := lexer.openBlock key.place.column .blockMappingStart
    let lexer := (lexer.insertAt key.tokenNumber (opening ++ [.key])).setKey none
    some (((lexer.allowKey false).push .value).moveTo (lexer.cursor.advance 1))
  | none =>
    if !lexer.inFlow && !lexer.keyAllowed then none
    else
      let lexer := lexer.openBlockHere .blockMappingStart
      some (((lexer.allowKey (!lexer.inFlow)).push .value).moveTo (lexer.cursor.advance 1))

/-- An anchor or an alias. -/
def anchorLike (lexer : Lexer) (token : String → Token) : Option Lexer := do
  let lexer ← lexer.noteKey
  let (name, cursor) ← anchorName? lexer.cursor
  return ((lexer.allowKey false).push (token name)).moveTo cursor

/-- A tag. -/
def tag (lexer : Lexer) : Option Lexer := do
  let lexer ← lexer.noteKey
  let (handle, suffix, cursor) ← tag? lexer.inFlow lexer.cursor
  return ((lexer.allowKey false).push (.tag handle suffix)).moveTo cursor

/-- A block scalar. -/
def blockScalar (lexer : Lexer) (folded : Bool) : Option Lexer := do
  let lexer ← lexer.dropKey
  let (text, cursor) ← block? folded lexer.indent lexer.cursor
  return ((lexer.allowKey true).push (.scalar (String.ofList text) false)).moveTo cursor

/-- A quoted scalar. -/
def quotedScalar (lexer : Lexer) (single : Bool) : Option Lexer := do
  let lexer ← lexer.noteKey
  let (text, cursor) ← quoted? single lexer.cursor
  return ((lexer.allowKey false).push (.scalar (String.ofList text) false)).moveTo cursor

/-- A plain scalar. A key may start after it only if a line end follows. -/
def plainScalar (lexer : Lexer) : Option Lexer := do
  let lexer ← lexer.noteKey
  let (text, broken, cursor) ← plain? lexer.inFlow (lexer.indent + 1).toNat lexer.cursor
  return ((lexer.allowKey broken).push (.scalar (String.ofList text) true)).moveTo cursor

/-- Characters that no plain scalar starts with, unless what follows them says
otherwise. -/
def isIndicator (c : Char) : Bool :=
  ['-', '?', ':', ',', '[', ']', '\x7b', '\x7d', '#', '&', '*', '!', '|', '>', '\'', '"', '%',
    '@', '\x60'].contains c

/-- Whether a plain scalar starts here. -/
def startsPlain (lexer : Lexer) (c : Char) : Bool :=
  let cursor := lexer.cursor
  !(isIndicator c || isBlank c || isBreak c) ||
    (c = '-' && !(cursor.advance 1).next isBlank) ||
    (!lexer.inFlow && (c = '?' || c = ':') && !cursor.blankOrEnd 1)

/-- Reads the token that starts with a character. -/
def token (lexer : Lexer) (c : Char) : Option Lexer :=
  let cursor := lexer.cursor
  let flow := lexer.inFlow
  if cursor.column = 0 ∧ c = '%' then lexer.directive
  else if cursor.atDocumentMark then
    lexer.documentMark (if c = '-' then .documentStart else .documentEnd)
  else if c = '[' then lexer.flowStart .flowSequenceStart
  else if c = '\x7b' then lexer.flowStart .flowMappingStart
  else if c = ']' then lexer.flowEnd .flowSequenceEnd
  else if c = '\x7d' then lexer.flowEnd .flowMappingEnd
  else if c = ',' then lexer.flowEntry
  else if c = '-' ∧ cursor.blankOrEnd 1 then lexer.blockEntry
  else if c = '?' ∧ (flow ∨ cursor.blankOrEnd 1) then lexer.explicitKey
  else if c = ':' ∧ (flow ∨ cursor.blankOrEnd 1) then lexer.value
  else if c = '*' then lexer.anchorLike .alias
  else if c = '&' then lexer.anchorLike .anchor
  else if c = '!' then lexer.tag
  else if c = '|' ∧ !flow then lexer.blockScalar false
  else if c = '>' ∧ !flow then lexer.blockScalar true
  else if c = '\'' then lexer.quotedScalar true
  else if c = '"' then lexer.quotedScalar false
  else if lexer.startsPlain c then lexer.plainScalar
  else none

/-- Closes all blocks at the end of the text. -/
def finish (lexer : Lexer) : Option (List Token) := do
  let lexer ← (lexer.closeBlocks (-1)).dropKey
  return lexer.tokens.reverse

/-- Reads all tokens. The first argument bounds their number. -/
def run : Nat → Lexer → Option (List Token)
  | 0, _ => none
  | fuel + 1, lexer => do
    let lexer := skipToToken (lexer.cursor.rest.length + 1) lexer
    let lexer ← lexer.dropStaleKeys
    match lexer.cursor.rest with
    | [] => lexer.finish
    | c :: _ => run fuel (← (lexer.closeBlocks lexer.cursor.column).token c)

end Lexer

/-- The tokens of a text. -/
def tokens? (text : String) : Option (List Token) :=
  let cs := text.toList
  if cs.all isAllowed then Lexer.run (cs.length + 2) { cursor := { rest := cs } }
  else none

end StackTemplate.Yaml
