/-!
# YAML tokens

Tokens are the indicators, names and scalars of a text. The structure that
indentation expresses is made explicit by tokens that open and close blocks.
-/

namespace StackTemplate.Yaml

/-- A token. -/
inductive Token where
  /-- The version that a text claims to follow. -/
  | versionDirective (major minor : Nat)
  /-- An abbreviation for the starts of tags. -/
  | tagDirective (handle : String) (expansion : List UInt8)
  /-- Three hyphens. -/
  | documentStart
  /-- Three points. -/
  | documentEnd
  /-- Deeper indentation that opens a sequence. -/
  | blockSequenceStart
  /-- Deeper indentation that opens a mapping. -/
  | blockMappingStart
  /-- Indentation that closes a block. -/
  | blockEnd
  /-- An opening bracket. -/
  | flowSequenceStart
  /-- A closing bracket. -/
  | flowSequenceEnd
  /-- An opening brace. -/
  | flowMappingStart
  /-- A closing brace. -/
  | flowMappingEnd
  /-- A hyphen before an item. -/
  | blockEntry
  /-- A comma between items. -/
  | flowEntry
  /-- The start of a key, with or without a question mark. -/
  | key
  /-- A colon before a value. -/
  | value
  /-- A reference to an anchored node. -/
  | alias (name : String)
  /-- A name for the node that follows. -/
  | anchor (name : String)
  /-- A type for the node that follows. -/
  | tag (handle : String) (suffix : List UInt8)
  /-- A scalar; a plain one is written without quotes or block indicator. -/
  | scalar (text : String) (plain : Bool)
  deriving DecidableEq, Repr

end StackTemplate.Yaml
