import StackTemplate.Yaml.Lexer
import StackTemplate.Yaml.Node
import StackTemplate.Yaml.Plain

/-!
# Reading YAML documents

A text holds one document. References are replaced by the nodes that they name,
but only so many times, and sequences and mappings are nested only so deeply. A
type that only an application knows may not be named.
-/

namespace StackTemplate.Yaml

/-- The node itself or, for a reference, the node it names, and the number of
references that may still be followed. Of several nodes with one number the
last one counts. -/
def followAlias (marks : List (Nat × Node)) (node : Node) (budget : Nat) : Option (Node × Nat) :=
  match node.content with
  | .alias number =>
    match marks.reverse.lookup number, budget with
    | some target, budget + 1 => some (target.content, budget)
    | _, _ => none
  | node => some (node, budget)

/-- The key that a node stands for: the text of a scalar as it is written. -/
def keyText? (marks : List (Nat × Node)) (node : Node) (budget : Nat) : Option (String × Nat) :=
  match followAlias marks node budget with
  | some (.scalar _ text _, budget) => some (text, budget)
  | _ => none

/-- The values of nodes, one after the other. -/
def itemsFrom (read : Node → Nat → Option (Value × Nat)) :
    List Node → Nat → Option (List Value × Nat)
  | [], budget => some ([], budget)
  | node :: nodes, budget => do
    let (value, budget) ← read node budget
    let (values, budget) ← itemsFrom read nodes budget
    return (value :: values, budget)

/-- The keys and values of pairs of nodes, one after the other. -/
def pairsFrom (marks : List (Nat × Node)) (read : Node → Nat → Option (Value × Nat)) :
    List (Node × Node) → Nat → Option (List (String × Value) × Nat)
  | [], budget => some ([], budget)
  | (key, node) :: pairs, budget => do
    let (key, budget) ← keyText? marks key budget
    let (value, budget) ← read node budget
    let (entries, budget) ← pairsFrom marks read pairs budget
    return ((key, value) :: entries, budget)

/-- The value of a node that is nested no deeper than the first number, with
the number of references that may still be followed. -/
def Node.toValue? (marks : List (Nat × Node)) : Nat → Node → Nat → Option (Value × Nat)
  | height, node, budget =>
    match followAlias marks node budget, height with
    | some (.scalar tag text plain, budget), _ =>
      (scalarValue? (meaningOf tag) text plain).map fun value => (value, budget)
    | some (.sequence tag items, budget), height + 1 =>
      if meaningOf tag = .foreign then none
      else
        (itemsFrom (Node.toValue? marks height) items budget).map
          fun (values, budget) => (.array values, budget)
    | some (.mapping tag pairs, budget), height + 1 =>
      if meaningOf tag = .foreign then none
      else
        (pairsFrom marks (Node.toValue? marks height) pairs budget).map
          fun (entries, budget) => (.object (Entries.ofPairs entries), budget)
    | _, _ => none

/-- Sequences and mappings are nested at most this deeply. -/
def depthLimit : Nat := 128

/-- The value of the root of a document. As many references may be followed as
a hundred times the size of the document. -/
def Node.toDocument? (root : Node) : Option Value :=
  (root.toValue? root.marks depthLimit (100 * root.size)).map Prod.fst

/-- Reads the only document of a text. -/
def parse? (text : String) : Option Value := do
  let tokens ← tokens? text
  let root ← Node.ofTokens? tokens
  root.toDocument?

end StackTemplate.Yaml
