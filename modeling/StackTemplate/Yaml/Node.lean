import StackTemplate.Entries
import StackTemplate.Yaml.Tag
import StackTemplate.Yaml.Token

/-!
# YAML nodes

A node is a scalar, a sequence, a mapping or a reference to another node. Nodes
are read from tokens; where a node is missing, an empty scalar stands for it.
Anchors get numbers when they are met: the number of names known so far.
-/

namespace StackTemplate.Yaml

/-- A node of a document. -/
inductive Node where
  /-- A reference to the node with a number. -/
  | alias (number : Nat)
  /-- A text, and whether it was written without quotes or block indicator. -/
  | scalar (tag : Option Tag) (text : String) (plain : Bool)
  /-- A list of nodes. -/
  | sequence (tag : Option Tag) (items : List Node)
  /-- A list of keys and values. -/
  | mapping (tag : Option Tag) (pairs : List (Node × Node))
  /-- A node with a number that references can name. -/
  | marked (number : Nat) (node : Node)
  deriving Inhabited

namespace Node

/-- The node that stands where nothing is written. -/
def empty : Node := .scalar none "" true

/-- The node without its number. -/
def content : Node → Node
  | .marked _ node => node.content
  | node => node

mutual

/-- All numbered nodes, in the order in which they start. -/
def marks : Node → List (Nat × Node)
  | .alias _ => []
  | .scalar _ _ _ => []
  | .sequence _ items => itemsMarks items
  | .mapping _ pairs => pairsMarks pairs
  | .marked number node => (number, node) :: marks node

/-- All numbered nodes in a list. -/
def itemsMarks : List Node → List (Nat × Node)
  | [] => []
  | node :: nodes => marks node ++ itemsMarks nodes

/-- All numbered nodes in a list of pairs. -/
def pairsMarks : List (Node × Node) → List (Nat × Node)
  | [] => []
  | (key, value) :: pairs => marks key ++ marks value ++ pairsMarks pairs

end

mutual

/-- The number of starts and ends of nodes. A scalar or a reference counts
once. -/
def size : Node → Nat
  | .alias _ => 1
  | .scalar _ _ _ => 1
  | .sequence _ items => itemsSize items + 2
  | .mapping _ pairs => pairsSize pairs + 2
  | .marked _ node => size node

/-- The size of a list of nodes. -/
def itemsSize : List Node → Nat
  | [] => 0
  | node :: nodes => size node + itemsSize nodes

/-- The size of a list of pairs. -/
def pairsSize : List (Node × Node) → Nat
  | [] => 0
  | (key, value) :: pairs => size key + size value + pairsSize pairs

end

end Node

/-- Tokens still to be read, and the numbers of the anchors met so far. -/
structure TokenStream where
  /-- The tokens. -/
  tokens : List Token
  /-- The number that each name refers to now. -/
  anchors : List (String × Nat) := []

namespace TokenStream

/-- Whether one of the given tokens is next. -/
def sees (stream : TokenStream) (tokens : List Token) : Bool :=
  match stream.tokens with
  | token :: _ => tokens.contains token
  | [] => false

/-- The stream with other tokens. -/
def withTokens (stream : TokenStream) (tokens : List Token) : TokenStream :=
  { stream with tokens }

/-- Gives a name the next number. -/
def addAnchor (stream : TokenStream) (name : String) : TokenStream :=
  { stream with anchors := Entries.insert name stream.anchors.length stream.anchors }

end TokenStream

/-- The anchor and the tag before a node, in either order. -/
structure Properties where
  /-- The name that references use. -/
  anchor : Option String := none
  /-- Handle and suffix of the tag. -/
  tag : Option (String × List UInt8) := none

/-- Reads the anchor and the tag before a node. -/
def Properties.read : List Token → Properties × List Token
  | .anchor name :: .tag handle suffix :: rest => (⟨some name, some (handle, suffix)⟩, rest)
  | .tag handle suffix :: .anchor name :: rest => (⟨some name, some (handle, suffix)⟩, rest)
  | .anchor name :: rest => (⟨some name, none⟩, rest)
  | .tag handle suffix :: rest => (⟨none, some (handle, suffix)⟩, rest)
  | rest => ({}, rest)

/-- The whole tag of a handle and a suffix. A handle must be known. -/
def wholeTag? (handles : List (String × List UInt8)) : Option (String × List UInt8) →
    Option (Option Tag)
  | none => some none
  | some ("", suffix) => some (some ⟨suffix⟩)
  | some (handle, suffix) =>
    (Entries.get? handle handles).map fun expansion => some ⟨expansion ++ suffix⟩

/-- Numbers a node if it has an anchor. -/
def markNode (number : Option Nat) (node : Node) : Node :=
  match number with
  | some number => .marked number node
  | none => node

mutual

/-- Reads a node. Blocks are allowed only outside brackets and braces; a
sequence that is not indented is allowed only inside a block mapping. -/
def readNode (handles : List (String × List UInt8)) :
    Nat → (block indentless : Bool) → TokenStream → Option (Node × TokenStream)
  | 0, _, _, _ => none
  | fuel + 1, block, indentless, stream =>
    match stream.tokens with
    | .alias name :: rest =>
      (Entries.get? name stream.anchors).map fun number =>
        (.alias number, stream.withTokens rest)
    | tokens =>
      let (properties, tokens) := Properties.read tokens
      let number := properties.anchor.map fun _ => stream.anchors.length
      let stream := match properties.anchor with
        | some name => stream.addAnchor name
        | none => stream
      match wholeTag? handles properties.tag with
      | none => none
      | some tag =>
        let bare := properties.anchor.isNone && properties.tag.isNone
        (readContent handles fuel block indentless tag bare (stream.withTokens tokens)).map
          fun (node, stream) => (markNode number node, stream)

/-- Reads what follows the anchor and the tag of a node. After either of them
it may be missing. -/
def readContent (handles : List (String × List UInt8)) :
    Nat → (block indentless : Bool) → Option Tag → (bare : Bool) → TokenStream →
    Option (Node × TokenStream)
  | 0, _, _, _, _, _ => none
  | fuel + 1, block, indentless, tag, bare, stream =>
    let missing := if bare then none else some (.scalar tag "" true, stream)
    match stream.tokens with
    | .scalar text plain :: rest => some (.scalar tag text plain, stream.withTokens rest)
    | .flowSequenceStart :: rest =>
      (readFlowItems handles fuel true [] (stream.withTokens rest)).map
        fun (items, stream) => (.sequence tag items, stream)
    | .flowMappingStart :: rest =>
      (readFlowPairs handles fuel true [] (stream.withTokens rest)).map
        fun (pairs, stream) => (.mapping tag pairs, stream)
    | .blockEntry :: _ =>
      if indentless then
        (readBlockItems handles fuel true [] stream).map
          fun (items, stream) => (.sequence tag items, stream)
      else missing
    | .blockSequenceStart :: rest =>
      if block then
        (readBlockItems handles fuel false [] (stream.withTokens rest)).map
          fun (items, stream) => (.sequence tag items, stream)
      else missing
    | .blockMappingStart :: rest =>
      if block then
        (readBlockPairs handles fuel [] (stream.withTokens rest)).map
          fun (pairs, stream) => (.mapping tag pairs, stream)
      else missing
    | _ => missing

/-- Reads a node, unless one of the given tokens shows that it is missing. -/
def readNodeBefore (handles : List (String × List UInt8)) :
    Nat → (block indentless : Bool) → (ends : List Token) → TokenStream →
    Option (Node × TokenStream)
  | 0, _, _, _, _ => none
  | fuel + 1, block, indentless, ends, stream =>
    if stream.sees ends then some (.empty, stream)
    else readNode handles fuel block indentless stream

/-- Reads a value after its colon; without a colon it is missing. -/
def readValue (handles : List (String × List UInt8)) :
    Nat → (block : Bool) → (ends : List Token) → TokenStream → Option (Node × TokenStream)
  | 0, _, _, _ => none
  | fuel + 1, block, ends, stream =>
    match stream.tokens with
    | .value :: rest => readNodeBefore handles fuel block block ends (stream.withTokens rest)
    | _ => some (.empty, stream)

/-- Reads the items of a block sequence. One that is not indented ends before
the first token that starts no item. -/
def readBlockItems (handles : List (String × List UInt8)) :
    Nat → (indentless : Bool) → List Node → TokenStream → Option (List Node × TokenStream)
  | 0, _, _, _ => none
  | fuel + 1, indentless, met, stream =>
    match stream.tokens with
    | .blockEntry :: rest =>
      let ends :=
        if indentless then [.blockEntry, .key, .value, .blockEnd] else [.blockEntry, .blockEnd]
      match readNodeBefore handles fuel true false ends (stream.withTokens rest) with
      | some (item, stream) => readBlockItems handles fuel indentless (item :: met) stream
      | none => none
    | .blockEnd :: rest =>
      some (met.reverse, if indentless then stream else stream.withTokens rest)
    | _ => if indentless then some (met.reverse, stream) else none

/-- Reads the keys and values of a block mapping. -/
def readBlockPairs (handles : List (String × List UInt8)) :
    Nat → List (Node × Node) → TokenStream → Option (List (Node × Node) × TokenStream)
  | 0, _, _ => none
  | fuel + 1, met, stream =>
    let ends := [.key, .value, .blockEnd]
    match stream.tokens with
    | .key :: rest =>
      match readNodeBefore handles fuel true true ends (stream.withTokens rest) with
      | some (key, stream) =>
        match readValue handles fuel true ends stream with
        | some (value, stream) => readBlockPairs handles fuel ((key, value) :: met) stream
        | none => none
      | none => none
    | .blockEnd :: rest => some (met.reverse, stream.withTokens rest)
    | _ => none

/-- Reads the items between brackets. All but the first one follow a comma, and
a comma may stand after the last one. -/
def readFlowItems (handles : List (String × List UInt8)) :
    Nat → (first : Bool) → List Node → TokenStream → Option (List Node × TokenStream)
  | 0, _, _, _ => none
  | fuel + 1, first, met, stream =>
    match stream.tokens with
    | .flowSequenceEnd :: rest => some (met.reverse, stream.withTokens rest)
    | .flowEntry :: rest =>
      if first then none
      else
        match rest with
        | .flowSequenceEnd :: rest => some (met.reverse, stream.withTokens rest)
        | _ =>
          match readFlowItem handles fuel (stream.withTokens rest) with
          | some (item, stream) => readFlowItems handles fuel false (item :: met) stream
          | none => none
    | _ =>
      if first then
        match readFlowItem handles fuel stream with
        | some (item, stream) => readFlowItems handles fuel false (item :: met) stream
        | none => none
      else none

/-- Reads one item between brackets. A key makes it a mapping with one entry;
where that key is missing, the token in its place is passed over. -/
def readFlowItem (handles : List (String × List UInt8)) :
    Nat → TokenStream → Option (Node × TokenStream)
  | 0, _ => none
  | fuel + 1, stream =>
    match stream.tokens with
    | .key :: rest =>
      let stream := stream.withTokens rest
      let read :=
        if stream.sees [.value, .flowEntry, .flowSequenceEnd] then
          some (Node.empty, stream.withTokens rest.tail)
        else readNode handles fuel false false stream
      match read with
      | some (key, stream) =>
        (readValue handles fuel false [.flowEntry, .flowSequenceEnd] stream).map
          fun (value, stream) => (.mapping none [(key, value)], stream)
      | none => none
    | _ => readNode handles fuel false false stream

/-- Reads the keys and values between braces. All but the first pair follow a
comma, and a comma may stand after the last one. -/
def readFlowPairs (handles : List (String × List UInt8)) :
    Nat → (first : Bool) → List (Node × Node) → TokenStream →
    Option (List (Node × Node) × TokenStream)
  | 0, _, _, _ => none
  | fuel + 1, first, met, stream =>
    match stream.tokens with
    | .flowMappingEnd :: rest => some (met.reverse, stream.withTokens rest)
    | .flowEntry :: rest =>
      if first then none
      else
        match rest with
        | .flowMappingEnd :: rest => some (met.reverse, stream.withTokens rest)
        | _ =>
          match readFlowPair handles fuel (stream.withTokens rest) with
          | some (pair, stream) => readFlowPairs handles fuel false (pair :: met) stream
          | none => none
    | _ =>
      if first then
        match readFlowPair handles fuel stream with
        | some (pair, stream) => readFlowPairs handles fuel false (pair :: met) stream
        | none => none
      else none

/-- Reads one key and its value between braces. Without a colon the value is
missing. -/
def readFlowPair (handles : List (String × List UInt8)) :
    Nat → TokenStream → Option ((Node × Node) × TokenStream)
  | 0, _ => none
  | fuel + 1, stream =>
    let ends := [.value, .flowEntry, .flowMappingEnd]
    match stream.tokens with
    | .key :: rest =>
      match readNodeBefore handles fuel false false ends (stream.withTokens rest) with
      | some (key, stream) =>
        (readValue handles fuel false [.flowEntry, .flowMappingEnd] stream).map
          fun (value, stream) => ((key, value), stream)
      | none => none
    | _ =>
      (readNode handles fuel false false stream).map fun (key, stream) => ((key, .empty), stream)

end

/-- The handles that every document knows. -/
def standardHandles : List (String × List UInt8) :=
  [("!", [Tag.mark]), ("!!", Tag.standardStart)]

/-- Reads the directives of a document and the mark after them. The version may
be given once, and a handle may be given only one expansion. -/
def readDirectives (version : Bool) (handles : List (String × List UInt8)) :
    List Token → Option (List (String × List UInt8) × List Token)
  | .versionDirective major minor :: rest =>
    if !version ∧ major = 1 ∧ (minor = 1 ∨ minor = 2) then readDirectives true handles rest
    else none
  | .tagDirective handle expansion :: rest =>
    if Entries.contains handle handles then none
    else readDirectives version (handles ++ [(handle, expansion)]) rest
  | .documentStart :: rest => some (handles ++ standardHandles, rest)
  | _ => none

/-- Reads the node of a document from tokens with the given handles. Nothing
but marks for the end of the document may follow it. -/
def readRoot (handles : List (String × List UInt8)) (ends : List Token) (tokens : List Token) :
    Option Node :=
  match readNodeBefore handles (4 * tokens.length + 8) true false ends { tokens } with
  | some (node, stream) =>
    if stream.tokens.all (· == .documentEnd) then some node else none
  | none => none

/-- The only document of a text: its tokens say nothing, start with a node, or
start with directives and a mark. -/
def Node.ofTokens? (tokens : List Token) : Option Node :=
  match tokens with
  | [] => some .empty
  | .versionDirective _ _ :: _ | .tagDirective _ _ :: _ | .documentStart :: _ =>
    match readDirectives false [] tokens with
    | some (_, []) => some .empty
    | some (handles, tokens) => readRoot handles [.documentEnd] tokens
    | none => none
  | _ => readRoot standardHandles [] tokens

end StackTemplate.Yaml
