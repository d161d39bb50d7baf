import StackTemplate.Json.Parser
import StackTemplate.Yaml.Cursor

/-!
# Reading YAML scalars

Quoted and plain scalars may go on over several lines. A single line end
becomes a blank, and of several all but the first one are kept. Block scalars
keep their lines or fold them, without the indentation of the block.
-/

namespace StackTemplate.Yaml

/-- Blanks and line ends met inside a scalar, before it is clear whether the
scalar goes on. -/
structure Gap where
  /-- Blanks before any line end. -/
  blanks : List Char := []
  /-- Whether a line end was met. -/
  broken : Bool := false
  /-- The first line end. -/
  firstBreak : List Char := []
  /-- The line ends after the first one. -/
  moreBreaks : List Char := []

/-- What a gap contributes to the text. -/
def Gap.text (gap : Gap) : List Char :=
  if !gap.broken then gap.blanks
  else if gap.firstBreak.head? = some '\n' then
    if gap.moreBreaks = [] then [' '] else gap.moreBreaks
  else gap.firstBreak ++ gap.moreBreaks

/-- Adds a line end to a gap. -/
def Gap.addBreak (gap : Gap) (text : List Char) : Gap :=
  if gap.broken then { gap with moreBreaks := gap.moreBreaks ++ text }
  else { gap with blanks := [], broken := true, firstBreak := text }

/-- Passes blanks and line ends. Where tabs may not indent, a tab before the
given column of a new line is refused. The first argument bounds the number of
characters. -/
def takeGap (tabsFrom : Nat) : Nat → Gap → Cursor → Option (Gap × Cursor)
  | 0, gap, cursor => some (gap, cursor)
  | fuel + 1, gap, cursor =>
    match cursor.rest with
    | c :: _ =>
      if isBlank c then
        if gap.broken then
          if c = '\t' ∧ cursor.column < tabsFrom then none
          else takeGap tabsFrom fuel gap (cursor.advance 1)
        else takeGap tabsFrom fuel { gap with blanks := gap.blanks ++ [c] } (cursor.advance 1)
      else if isBreak c then
        let (text, cursor) := cursor.takeBreak
        takeGap tabsFrom fuel (gap.addBreak text) cursor
      else some (gap, cursor)
    | [] => some (gap, cursor)

/-- The number of the given hexadecimal digits. -/
def hexNumber? (digits : List Char) : Option Nat :=
  digits.foldl (fun number c =>
    match number, Json.hexDigit? c with
    | some n, some d => some (n * 16 + d)
    | _, _ => none) (some 0)

/-- The character of an escape by number, which has exactly the given number of
hexadecimal digits. -/
def numberedChar? (width : Nat) (cs : List Char) : Option Char :=
  let digits := cs.take width
  if digits.length < width then none
  else
    match hexNumber? digits with
    | some n =>
      if (0xD800 ≤ n ∧ n ≤ 0xDFFF) ∨ 0x10FFFF < n then none else some (Char.ofNat n)
    | none => none

/-- The character that follows a backslash, and how many characters stand for
it, the backslash included. -/
def escape? (cs : List Char) : Option (Char × Nat) :=
  match cs with
  | '0' :: _ => some ('\x00', 2)
  | 'a' :: _ => some ('\x07', 2)
  | 'b' :: _ => some ('\x08', 2)
  | 't' :: _ => some ('\t', 2)
  | '\t' :: _ => some ('\t', 2)
  | 'n' :: _ => some ('\n', 2)
  | 'v' :: _ => some ('\x0b', 2)
  | 'f' :: _ => some ('\x0c', 2)
  | 'r' :: _ => some ('\r', 2)
  | 'e' :: _ => some ('\x1b', 2)
  | ' ' :: _ => some (' ', 2)
  | '"' :: _ => some ('"', 2)
  | '/' :: _ => some ('/', 2)
  | '\\' :: _ => some ('\\', 2)
  | 'N' :: _ => some ('\u0085', 2)
  | '_' :: _ => some ('\u00a0', 2)
  | 'L' :: _ => some ('\u2028', 2)
  | 'P' :: _ => some ('\u2029', 2)
  | 'x' :: rest => (numberedChar? 2 rest).map fun c => (c, 4)
  | 'u' :: rest => (numberedChar? 4 rest).map fun c => (c, 6)
  | 'U' :: rest => (numberedChar? 8 rest).map fun c => (c, 10)
  | _ => none

/-- Two quotes inside single quotes stand for one. -/
def skipDoubledQuote (single : Bool) (cursor : Cursor) : Option Cursor :=
  if single ∧ cursor.starts ['\'', '\''] then some (cursor.advance 2) else none

/-- The rest of a quoted scalar, up to its closing quote. The text met so far is
kept in reverse, and the first argument bounds the number of characters. -/
def quotedTail (single : Bool) : Nat → List Char → Cursor → Option (List Char × Cursor)
  | 0, _, _ => none
  | fuel + 1, met, cursor =>
    let quote := if single then '\'' else '"'
    if cursor.atDocumentMark then none
    else
      match cursor.rest with
      | [] => none
      | c :: rest =>
        if isBlank c ∨ isBreak c then
          match takeGap 0 (rest.length + 1) {} cursor with
          | some (gap, cursor) => quotedTail single fuel (gap.text.reverse ++ met) cursor
          | none => none
        else
          match skipDoubledQuote single cursor with
          | some cursor => quotedTail single fuel ('\'' :: met) cursor
          | none =>
            if c = quote then some (met.reverse, cursor.advance 1)
            else if !single ∧ c = '\\' then
              if (cursor.advance 1).next isBreak then
                let cursor := (cursor.advance 1).skipBreak
                match takeGap 0 (rest.length + 1) { broken := true } cursor with
                | some (gap, cursor) => quotedTail single fuel (gap.text.reverse ++ met) cursor
                | none => none
              else
                match escape? rest with
                | some (escaped, width) =>
                  quotedTail single fuel (escaped :: met) (cursor.advance width)
                | none => none
            else quotedTail single fuel (c :: met) (cursor.advance 1)

/-- A quoted scalar, from its opening quote on. -/
def quoted? (single : Bool) (cursor : Cursor) : Option (List Char × Cursor) :=
  quotedTail single (cursor.rest.length + 1) [] (cursor.advance 1)

/-- Characters that end a plain scalar inside brackets and braces. -/
def isFlowIndicator (c : Char) : Bool :=
  c = ',' || c = '[' || c = ']' || c = '\x7b' || c = '\x7d'

/-- A run of a plain scalar without blanks. A colon ends it before a blank, and
inside brackets and braces it may not stand before an indicator. -/
def plainRun (flow : Bool) : Nat → List Char → Cursor → Option (List Char × Cursor)
  | 0, met, cursor => some (met, cursor)
  | fuel + 1, met, cursor =>
    match cursor.rest with
    | [] => some (met, cursor)
    | c :: _ =>
      if isBlank c ∨ isBreak c then some (met, cursor)
      else if flow ∧ c = ':' ∧
          (cursor.advance 1).next (fun d => isFlowIndicator d || d = '?') then none
      else if (c = ':' ∧ cursor.blankOrEnd 1) ∨ (flow ∧ isFlowIndicator c) then some (met, cursor)
      else plainRun flow fuel (c :: met) (cursor.advance 1)

/-- The runs of a plain scalar after a gap. A comment, a mark between documents
and, outside brackets and braces, too little indentation end it. The result
tells whether a line end follows the scalar. -/
def plainRuns (flow : Bool) (indent : Nat) :
    Nat → Gap → List Char → Cursor → Option (List Char × Bool × Cursor)
  | 0, _, _, _ => none
  | fuel + 1, gap, met, cursor =>
    if cursor.atDocumentMark ∨ cursor.sees '#' 0 then some (met.reverse, gap.broken, cursor)
    else
      match plainRun flow (cursor.rest.length + 1) [] cursor with
      | none => none
      | some (run, after) =>
        let (gap, met) :=
          if run = [] then (gap, met) else (({} : Gap), run ++ (gap.text.reverse ++ met))
        if after.next fun c => isBlank c || isBreak c then
          match takeGap indent (after.rest.length + 1) gap after with
          | none => none
          | some (gap, after) =>
            if !flow ∧ after.column < indent then some (met.reverse, gap.broken, after)
            else plainRuns flow indent fuel gap met after
        else some (met.reverse, gap.broken, after)

/-- A plain scalar. -/
def plain? (flow : Bool) (indent : Nat) (cursor : Cursor) :
    Option (List Char × Bool × Cursor) :=
  plainRuns flow indent (cursor.rest.length + 1) {} [] cursor

/-- What to do with the line ends after a block scalar. -/
inductive Chomping where
  /-- Drop all. -/
  | strip
  /-- Keep the first one. -/
  | clip
  /-- Keep all. -/
  | keep
  deriving DecidableEq

/-- Reads a chomping indicator, if there is one. -/
def chomping? (cursor : Cursor) : Option (Chomping × Cursor) :=
  if cursor.sees '+' 0 then some (.keep, cursor.advance 1)
  else if cursor.sees '-' 0 then some (.strip, cursor.advance 1)
  else none

/-- Reads an indentation indicator, if there is one. Zero is refused. -/
def increment? (cursor : Cursor) : Option (Option Nat × Cursor) :=
  match cursor.rest with
  | c :: _ =>
    if c = '0' then none
    else if c.isDigit then some (some (c.toNat - '0'.toNat), cursor.advance 1)
    else some (none, cursor)
  | [] => some (none, cursor)

/-- Reads the two indicators of a block scalar, in either order. -/
def blockHeader? (cursor : Cursor) : Option (Chomping × Option Nat × Cursor) :=
  match chomping? cursor with
  | some (chomping, cursor) =>
    (increment? cursor).map fun (increment, cursor) => (chomping, increment, cursor)
  | none =>
    match increment? cursor with
    | none => none
    | some (none, cursor) => some (.clip, none, cursor)
    | some (some increment, cursor) =>
      match chomping? cursor with
      | some (chomping, cursor) => some (chomping, some increment, cursor)
      | none => some (.clip, some increment, cursor)

/-- Passes the indentation and the empty lines before a line of a block scalar.
Without a known indentation, the deepest one met is noted. A tab may not stand
in the indentation. -/
def blockBreaks (indent : Option Nat) :
    Nat → Nat → List Char → Cursor → Option (Nat × List Char × Cursor)
  | 0, _, _, _ => none
  | fuel + 1, deepest, breaks, cursor =>
    let spaces := cursor.rest.takeWhile (· = ' ')
    let passed := match indent with
      | some indent => min spaces.length (indent - cursor.column)
      | none => spaces.length
    let cursor := cursor.advance passed
    let deepest := max deepest cursor.column
    let indenting : Bool := match indent with
      | some indent => decide (cursor.column < indent)
      | none => true
    if indenting && cursor.sees '\t' 0 then none
    else if cursor.next isBreak then
      let (text, cursor) := cursor.takeBreak
      blockBreaks indent fuel deepest (breaks ++ text) cursor
    else some (deepest, breaks, cursor)

/-- The lines of a block scalar. The text met so far is kept in reverse; the
last line end and the empty lines after it are kept apart, because they may be
folded or dropped. -/
def blockLines (folded : Bool) (indent : Nat) : Nat → (met lastBreak breaks : List Char) →
    (blankStart : Bool) → Cursor → Option (List Char × List Char × List Char × Cursor)
  | 0, _, _, _, _, _ => none
  | fuel + 1, met, lastBreak, breaks, blankStart, cursor =>
    if cursor.column = indent ∧ !cursor.atEnd then
      let blankHere := cursor.next isBlank
      let joined :=
        if folded ∧ lastBreak.head? = some '\n' ∧ !blankStart ∧ !blankHere then
          if breaks = [] then [' '] else breaks
        else lastBreak ++ breaks
      let (line, cursor) := cursor.takeWhile fun c => !isBreak c
      let (lastBreak, cursor) := cursor.takeBreak
      match blockBreaks (some indent) (cursor.rest.length + 1) 0 [] cursor with
      | none => none
      | some (_, breaks, cursor) =>
        blockLines folded indent fuel (line.reverse ++ (joined.reverse ++ met)) lastBreak breaks
          blankHere cursor
    else some (met, lastBreak, breaks, cursor)

/-- A block scalar inside a block of the given indentation, from its indicator
on. -/
def block? (folded : Bool) (outer : Int) (cursor : Cursor) : Option (List Char × Cursor) := do
  let (chomping, increment, cursor) ← blockHeader? (cursor.advance 1)
  let cursor := (cursor.skipWhile isBlank).skipComment
  if !cursor.atBreakOrEnd then none
  else
    let cursor := cursor.skipBreak
    let known := increment.map fun increment => (max outer 0).toNat + increment
    let (deepest, breaks, cursor) ← blockBreaks known (cursor.rest.length + 1) 0 [] cursor
    let indent := known.getD (max (max deepest (outer + 1).toNat) 1)
    let (met, lastBreak, breaks, cursor) ←
      blockLines folded indent (cursor.rest.length + 1) [] [] breaks false cursor
    let ending := match chomping with
      | .strip => []
      | .clip => lastBreak
      | .keep => lastBreak ++ breaks
    return (met.reverse ++ ending, cursor)

end StackTemplate.Yaml
