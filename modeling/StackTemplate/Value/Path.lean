import StackTemplate.Text.Split
import StackTemplate.Value.Basic

/-!
# Paths

A path leads from a document to one of its parts. It is written with points
between its segments; a segment that reads as a natural number is a position
in a list, any other one is a key.
-/

namespace StackTemplate

/-- One step of a path. -/
inductive Segment where
  /-- Into the entry of a mapping. -/
  | key (name : String)
  /-- Into the item of a list, counted from zero. -/
  | index (position : Nat)
  deriving DecidableEq, Repr

/-- The steps from a document to one of its parts. -/
abbrev Path := List Segment

namespace Segment

/-- The key that the step asks for. -/
def key? : Segment → Option String
  | .key name => some name
  | .index _ => none

/-- The step that a text denotes. -/
def ofText (text : String) : Segment :=
  match Text.natural? text with
  | some position => .index position
  | none => .key text

/-- The text of a step. -/
def text : Segment → String
  | .key name => name
  | .index position => String.ofList (Text.natural position)

/-- Keys come before positions, keys are in alphabetical and positions in
numerical order. -/
def compare : Segment → Segment → Ordering
  | .key a, .key b => Ord.compare a b
  | .key _, .index _ => .lt
  | .index _, .key _ => .gt
  | .index a, .index b => Ord.compare a b

end Segment

namespace Path

/-- Reads a path with points between its segments. Empty segments are left out. -/
def ofText (text : String) : Path :=
  ((Text.split "." text).filter (· ≠ "")).map Segment.ofText

/-- The texts of the segments with a separator between them. -/
def text (separator : String) (path : Path) : String :=
  Text.join separator (path.map Segment.text)

/-- Segment by segment; a path comes before its continuations. -/
def compare : Path → Path → Ordering
  | [], [] => .eq
  | [], _ :: _ => .lt
  | _ :: _, [] => .gt
  | a :: as, b :: bs => (a.compare b).then (compare as bs)

/-- The paths in order. -/
def sort (paths : List Path) : List Path :=
  paths.mergeSort fun a b => compare a b != .gt

end Path

/-- The part of a value that one step leads to. -/
def Value.step? : Value → Segment → Option Value
  | .object entries, .key name => Entries.get? name entries
  | .array items, .index position => items[position]?
  | _, _ => none

/-- The part of a value that a path leads to. -/
def Value.lookup (value : Value) : Path → Option Value
  | [] => some value
  | segment :: path =>
    match value.step? segment with
    | some part => part.lookup path
    | none => none

end StackTemplate
