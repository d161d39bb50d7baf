import StackTemplate.Evaluator
import StackTemplate.Expansion.Collection
import StackTemplate.Expansion.Diagnostic

/-!
# Expansion of loops

A loop stands in a mapping, under a key of its own. It is replaced by the
entries that its body produces for every item of its collection, with the loop
variable bound to the item. Inside a loop, bound names are replaced in keys, in
references and in substituted texts, and a map lookup that depends on nothing
but loop variables is replaced by the entry it finds. The JSON text of a value
without intrinsic functions is written out everywhere.
-/

namespace StackTemplate

/-- An expansion: it may hand out placeholder items and may end with a
diagnostic. -/
abbrev Expansion := StateT CollectionCache (Except Diagnostic)

namespace Expansion

/-- Ends the expansion. -/
def fail {α : Type} (fault : Fault) (path : Path) (node : Value) : Expansion α :=
  throw ⟨fault, path, node⟩

/-- The items that stand for an expression. -/
def placeholders (expression : Value) : Expansion (List Value) :=
  fun cache => .ok (cache.placeholders expression)

/-- A key with the loop variables in it replaced. -/
def substituteKey (scope : Scope) (key : String) : String :=
  (Placeholder.substitute scope.get? key).text

/-- A text with the loop variables in it replaced, except names that the
substitution's own variables define. -/
def substituteText (scope : Scope) (ownNames : List (String × Value)) (text : String) : String :=
  let lookup (name : String) : Option Value :=
    if Entries.contains name ownNames then none else scope.get? name
  (Placeholder.substituteDollar lookup text).text

/-- The items of a collection written as a list. Null items are dropped, and an
item that stays unresolved is replaced by its first placeholder. -/
def listItems (e : Evaluator) : List Value → Expansion (List Value)
  | [] => pure []
  | item :: items => do
    let here ← match e.resolve item with
      | .ok .null => pure []
      | .ok value => pure [value]
      | .error _ => (List.take 1) <$> placeholders item
    let others ← listItems e items
    return here ++ others

/-- The items that a loop runs over. -/
def collectionItems (e : Evaluator) (path : Path) (collection : Value) :
    Expansion (List Value) :=
  match collection with
  | .array items => listItems e items
  | collection =>
    if collection.call?.isSome then
      match e.resolve collection with
      | .ok (.array items) => pure items
      | .ok _ => fail .collectionNotList path collection
      | .error _ => placeholders collection
    else fail .collectionNotList path collection

/-- What is wrong with a loop that has not the form of a variable, a collection
and a body. -/
def malformedFault : Value → Fault
  | .array [.string _, _, _] => .outputNotMapping
  | .array [_, _, _] => .loopVariableNotString
  | .array parts => .forEachArity parts.length
  | _ => .forEachNotList

/-- Adds an entry to a mapping that must not have its key yet. The source is
the key and the value that the entry comes from. -/
def insertUnique (path : Path) (sourceKey : String) (source : Value)
    (output : List (String × Value)) (key : String) (value : Value) :
    Expansion (List (String × Value)) :=
  if Entries.contains key output then
    fail (.duplicateKey key) (path ++ [.key sourceKey]) source
  else pure (output ++ [(key, value)])

/-- Adds several entries from one source. -/
def insertAll (path : Path) (sourceKey : String) (source : Value)
    (output : List (String × Value)) : List (String × Value) → Expansion (List (String × Value))
  | [] => pure output
  | (key, value) :: entries => do
    let output ← insertUnique path sourceKey source output key value
    insertAll path sourceKey source output entries

/-- The entries that the body of a loop produces for all items. -/
def forItems (body : Value → Expansion (List (String × Value))) :
    List Value → Expansion (List (String × Value))
  | [] => pure []
  | item :: items => do
    let here ← body item
    let others ← forItems body items
    return here ++ others

/-- A call of a function with expanded arguments. -/
def rebuild (key : String) (args : Value) : Value :=
  if Intrinsic.functionOfKey? key = some .toJsonString ∧ !args.usesIntrinsic then
    .string (Json.render args)
  else .object [(key, args)]

/-- The entry of the mappings that a map lookup inside a loop finds by loop
variables alone. -/
def foundInMap? (c : Context) (scope : Scope) (call : Value) : Option Value :=
  if scope.isEmpty then none else (Evaluator.resolve ⟨c, scope, true⟩ call).toOption

mutual

/-- Expands a part of the document that stands at a path. -/
def expand (c : Context) (scope : Scope) (path : Path) : Value → Expansion Value
  | .array items => do return .array (← expandItems c scope path 0 items)
  | .object entries =>
    match entries with
    | [(key, args)] =>
      match Intrinsic.functionOfKey? key, args with
      | some .ref, .string name =>
        return (scope.get? name).getD (.object [(key, .string name)])
      | some .sub, .string text =>
        return .object [(key, .string (substituteText scope [] text))]
      | some .sub, .array [.string text, .object ownNames] => do
        let expanded ← expand c scope (path ++ [.key key, .index 1]) (.object ownNames)
        return .object [(key, .array [.string (substituteText scope ownNames text), expanded])]
      | some .findInMap, args =>
        match foundInMap? c scope (.object [(key, args)]) with
        | some found => return found
        | none => do return rebuild key (← expand c scope (path ++ [.key key]) args)
      | some _, args => do return rebuild key (← expand c scope (path ++ [.key key]) args)
      | none, args => do
        let loops ← expandLoops c scope path [(key, args)]
        return .object (← expandEntries c scope path loops [] [(key, args)])
    | entries => do
      let loops ← expandLoops c scope path entries
      return .object (← expandEntries c scope path loops [] entries)
  | scalar => return scalar

/-- Expands the items of a list, the first of which stands at the given
position. -/
def expandItems (c : Context) (scope : Scope) (path : Path) (position : Nat) :
    List Value → Expansion (List Value)
  | [] => return []
  | item :: items => do
    let item ← expand c scope (path ++ [.index position]) item
    let items ← expandItems c scope path (position + 1) items
    return item :: items

/-- The entries produced by the loops of a mapping; nothing for other entries. -/
def expandLoops (c : Context) (scope : Scope) (path : Path) :
    List (String × Value) → Expansion (List (Option (List (String × Value))))
  | [] => return []
  | (key, value) :: entries => do
    let here ←
      if Intrinsic.ofKey? key = some .forEach then
        some <$> expandLoop c scope (path ++ [.key key]) value
      else pure none
    let others ← expandLoops c scope path entries
    return here :: others

/-- The entries produced by a loop. -/
def expandLoop (c : Context) (scope : Scope) (path : Path) :
    Value → Expansion (List (String × Value))
  | .array [.string name, collection, .object body] => do
    let items ← collectionItems ⟨c, scope, false⟩ path collection
    forItems (fun item => do
      let produced ←
        expand c (scope.child.bind name item) (path ++ [.index 2]) (.object body)
      match produced with
      | .object entries => return entries
      | _ =>
        fail .outputNotMapping path (.array [.string name, collection, .object body])) items
  | block => fail (malformedFault block) path block

/-- Expands the entries of a mapping, given what its loops produce, and adds
them to those already there. -/
def expandEntries (c : Context) (scope : Scope) (path : Path)
    (loops : List (Option (List (String × Value)))) (output : List (String × Value)) :
    List (String × Value) → Expansion (List (String × Value))
  | [] => return output
  | (key, value) :: entries => do
    let output ← match loops.head?.join with
      | some produced => insertAll path key value output produced
      | none => do
        let expanded ← expand c scope (path ++ [.key key]) value
        insertUnique path key value output (substituteKey scope key) expanded
    expandEntries c scope path loops.tail output entries

end

end Expansion

end StackTemplate
