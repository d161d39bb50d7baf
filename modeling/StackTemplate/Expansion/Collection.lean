import StackTemplate.Value.Digest

/-!
# Placeholders for unresolved collections

A loop over a collection that is known only after deployment runs over two
placeholder items. They are named after the digest of the collection's
expression, and a cache keeps them, so equal expressions get equal items.
-/

namespace StackTemplate

/-- The placeholder items handed out so far, under the digests of the
expressions they stand for. -/
structure CollectionCache where
  /-- The items under every digest. -/
  entries : List (String × List Value) := []

namespace CollectionCache

/-- The name of a placeholder item. -/
def itemName (digest : String) (position : Nat) : String :=
  "Placeholder" ++ String.ofList (digest.toList.take 12) ++ String.ofList (Text.natural position)

/-- The two items for an expression with the given digest. -/
def freshItems (digest : String) : List Value :=
  [.string (itemName digest 0), .string (itemName digest 1)]

/-- The items that stand for an expression, and the cache that knows them. -/
def placeholders (cache : CollectionCache) (expression : Value) :
    List Value × CollectionCache :=
  let digest := expression.digest
  match Entries.get? digest cache.entries with
  | some items => (items, cache)
  | none => (freshItems digest, ⟨(digest, freshItems digest) :: cache.entries⟩)

/-- The number of different expressions met. -/
def size (cache : CollectionCache) : Nat := cache.entries.length

end CollectionCache

end StackTemplate
