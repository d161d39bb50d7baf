import StackTemplate.Digest.Sha256
import StackTemplate.Json.Printer

/-!
# Digests of documents

A document is identified by the SHA-256 digest of its compact JSON text, so the
order of keys and the spelling of numbers count.
-/

namespace StackTemplate.Value

/-- The digest of a document, sixty-four hexadecimal digits. -/
def digest (value : Value) : String := Digest.hex (Json.render value)

/-- The first hexadecimal digits of the digest. -/
def digestStart (count : Nat) (value : Value) : String :=
  String.ofList (value.digest.toList.take count)

/-- The eight digits that stand for a list or a mapping inside a text. -/
def shortDigest (value : Value) : String := value.digestStart 8

end StackTemplate.Value
