import StackTemplate.Proofs.Parts
import StackTemplate.Proofs.Unrolling

/-!
# Where diagnostics stand

The expansion carries along the path of the part that it is at, into lists,
mappings, the arguments of calls, the variables of substitutions and the bodies
of loops. The keys that it writes may differ from those that it reads, but its
paths are made of the latter. So a path leads to an entry of the document as it
was written, and a fault says of this entry what is wrong: how a loop is
malformed, or that the entry produces a key that is there already.
-/

namespace StackTemplate.Expansion

open Unrolling (loopItems malformed unroll unrollEntries)

/-- The value that takes the place of a reference or of a map lookup. -/
def replacement? (c : Context) (scope : Scope) (value : Value) : Option Value :=
  match value.call? with
  | some (.ref, .string name) => scope.get? name
  | some (.findInMap, _) => foundInMap? c scope value
  | _ => none

/-- All other calls stay. -/
theorem replacement?_eq_none (c : Context) (scope : Scope) {value args : Value}
    {kind : Intrinsic} (hcall : value.call? = some (kind, args))
    (href : ∀ name, args = .string name → kind ≠ .ref) (hfind : kind ≠ .findInMap) :
    replacement? c scope value = none := by
  rw [replacement?, hcall]
  cases kind with
  | ref => cases args with
    | string name => exact absurd rfl (href name rfl)
    | _ => rfl
  | findInMap => exact absurd rfl hfind
  | _ => rfl

/-- The expansion of a document comes to a part of it, which stands at a path and
is expanded in a scope. -/
inductive Arrives (c : Context) (root : Value) : Scope → Path → Value → Prop where
  /-- At first it comes to the document itself. -/
  | start : Arrives c root .root [] root
  /-- From a list to an item. -/
  | item {scope : Scope} {path : Path} {items : List Value} {position : Nat} {item : Value}
      (h : Arrives c root scope path (.array items)) (hitem : items[position]? = some item) :
      Arrives c root scope (path ++ [.index position]) item
  /-- From a call that is not replaced to its arguments. -/
  | argument {scope : Scope} {path : Path} {key : String} {args : Value} {kind : Intrinsic}
      (h : Arrives c root scope path (.object [(key, args)]))
      (hkind : Intrinsic.functionOfKey? key = some kind)
      (hkept : replacement? c scope (.object [(key, args)]) = none) :
      Arrives c root scope (path ++ [.key key]) args
  /-- From a mapping to the value of an entry that is no loop. -/
  | entry {scope : Scope} {path : Path} {entries : List (String × Value)} {key : String}
      {value : Value} (h : Arrives c root scope path (.object entries))
      (hplain : (Value.object entries).call? = none) (hentry : (key, value) ∈ entries)
      (hkey : Intrinsic.isForEachKey key = false) :
      Arrives c root scope (path ++ [.key key]) value
  /-- From a mapping to the body of a loop, for every item of the loop. -/
  | body {scope : Scope} {path : Path} {entries body : List (String × Value)} {key name : String}
      {collection item : Value} {items : List Value}
      (h : Arrives c root scope path (.object entries))
      (hentry : (key, .array [.string name, collection, .object body]) ∈ entries)
      (hkey : Intrinsic.isForEachKey key = true)
      (hitems : (loopItems ⟨c, scope, false⟩ collection).Clean items) (hitem : item ∈ items) :
      Arrives c root (scope.child.bind name item) (path ++ [.key key] ++ [.index 2])
        (.object body)

/-- A fault is right about an entry of a mapping, given by its key and its value,
and about the part that is said to be at fault. -/
inductive Describes (c : Context) (scope : Scope) (entries : List (String × Value)) :
    String → Value → Fault → Value → Prop where
  /-- The entry is a loop that is no list. -/
  | notList {source : String} {block : Value} (hloop : Intrinsic.isForEachKey source = true)
      (h : block.items? = none) : Describes c scope entries source block .forEachNotList block
  /-- The entry is a loop with a number of parts other than three. -/
  | arity {source : String} {parts : List Value} (hloop : Intrinsic.isForEachKey source = true)
      (h : parts.length ≠ 3) :
      Describes c scope entries source (.array parts) (.forEachArity parts.length) (.array parts)
  /-- The entry is a loop whose variable is no text. -/
  | name {source : String} {first collection output : Value}
      (hloop : Intrinsic.isForEachKey source = true) (h : first.string? = none) :
      Describes c scope entries source (.array [first, collection, output])
        .loopVariableNotString (.array [first, collection, output])
  /-- The entry is a loop without items to run over. At fault is its second part. -/
  | collection {source name : String} {collection : Value} {body : List (String × Value)}
      (hloop : Intrinsic.isForEachKey source = true)
      (h : loopItems ⟨c, scope, false⟩ collection = malformed) :
      Describes c scope entries source (.array [.string name, collection, .object body])
        .collectionNotList collection
  /-- The entry is a loop whose body is no mapping. -/
  | output {source name : String} {collection output : Value}
      (hloop : Intrinsic.isForEachKey source = true) (h : output.entries? = none) :
      Describes c scope entries source (.array [.string name, collection, output])
        .outputNotMapping (.array [.string name, collection, output])
  /-- The entry is a loop whose body comes to no mapping for one of its items. -/
  | product {source name : String} {collection item result : Value}
      {body : List (String × Value)} {items : List Value}
      (hloop : Intrinsic.isForEachKey source = true)
      (hitems : (loopItems ⟨c, scope, false⟩ collection).Clean items) (hitem : item ∈ items)
      (hresult : (unroll c (scope.child.bind name item) (.object body)).Clean result)
      (h : result.entries? = none) :
      Describes c scope entries source (.array [.string name, collection, .object body])
        .outputNotMapping (.array [.string name, collection, .object body])
  /-- The entry produces the first key of the mapping that is there already, from
  an entry before it or from the entry itself. -/
  | repeated {source key : String} {block value : Value}
      {before after early here later : List (String × Value)}
      (hentries : entries = before ++ (source, block) :: after)
      (hbefore : (unrollEntries c scope before).Clean early)
      (hhere : (unrollEntries c scope [(source, block)]).Clean (here ++ (key, value) :: later))
      (hdistinct : Entries.Distinct (early ++ here)) (hknown : key ∈ Entries.keys (early ++ here)) :
      Describes c scope entries source block (.duplicateKey key) block

/-- A diagnostic stands at an entry of a mapping that the expansion comes to, and
is right about this entry. -/
def Located (c : Context) (root : Value) (diagnostic : Diagnostic) : Prop :=
  ∃ scope place entries source block, Arrives c root scope place (.object entries) ∧
    (source, block) ∈ entries ∧ diagnostic.path = place ++ [.key source] ∧
    root.lookup diagnostic.path = some block ∧
    Describes c scope entries source block diagnostic.fault diagnostic.node

variable {c : Context} {root : Value} {scope : Scope} {path : Path}

/-- What one step leads to from a part of the document. -/
theorem lookup_of_step {part inner : Value} {segment : Segment}
    (h : part.WellFormed ∧ root.lookup path = some part) (hstep : part.step? segment = some inner) :
    inner.WellFormed ∧ root.lookup (path ++ [segment]) = some inner := by
  refine ⟨h.1.child ((Value.mem_children h.1).mpr hstep), ?_⟩
  rw [Value.lookup_append_singleton, h.2]
  exact hstep

/-- What a key leads to from a mapping of the document. -/
theorem lookup_of_entry {entries : List (String × Value)} {key : String} {value : Value}
    (h : (Value.object entries).WellFormed ∧ root.lookup path = some (.object entries))
    (hentry : (key, value) ∈ entries) :
    value.WellFormed ∧ root.lookup (path ++ [.key key]) = some value :=
  lookup_of_step h (h.1.1.get?_of_mem hentry)

/-- The expansion finds a part where it stands in the document. -/
theorem Arrives.lookup {part : Value} (h : Arrives c root scope path part)
    (hwell : root.WellFormed) : part.WellFormed ∧ root.lookup path = some part := by
  induction h with
  | start => exact ⟨hwell, rfl⟩
  | item _ hitem ih => exact lookup_of_step ih hitem
  | argument _ _ _ ih => exact lookup_of_entry ih List.mem_cons_self
  | entry _ _ hentry _ ih => exact lookup_of_entry ih hentry
  | body _ hentry _ _ _ ih => exact lookup_of_step (lookup_of_entry ih hentry) rfl

/-- What is said about a loop without a variable, a collection and a body is
right. -/
theorem describes_malformedFault {source : String} {block : Value}
    (hloop : Intrinsic.isForEachKey source = true)
    (h : ∀ name collection body, block = .array [.string name, collection, .object body] →
      False) : Describes c scope entries source block (malformedFault block) block := by
  unfold malformedFault
  split
  · next name collection output =>
    refine .output hloop ?_
    cases output with
    | object body => exact absurd rfl (h name collection body)
    | _ => rfl
  · next first collection output hname =>
    refine .name hloop ?_
    cases first with
    | string name => exact absurd rfl (hname name)
    | _ => rfl
  · next parts _ hthree =>
    refine .arity hloop fun hlength => ?_
    obtain ⟨first, second, third, rfl⟩ := List.length_eq_three.mp hlength
    exact hthree first second third rfl
  · next hlist =>
    refine .notList hloop ?_
    cases block with
    | array parts => exact absurd rfl (hlist parts)
    | _ => rfl

/-- Wherever the expansion comes to a part at a path and in a scope, a diagnostic is
located. -/
def LocatedFrom (c : Context) (scope : Scope) (path : Path) (part : Value)
    (diagnostic : Diagnostic) : Prop :=
  ∀ root : Value, root.WellFormed → Arrives c root scope path part → Located c root diagnostic

/-- So it is if it is right about an entry of the part. -/
theorem Describes.locatedFrom {entries : List (String × Value)} {source : String}
    {block node : Value} {fault : Fault} (h : Describes c scope entries source block fault node)
    (hentry : (source, block) ∈ entries) :
    LocatedFrom c scope path (.object entries) ⟨fault, path ++ [.key source], node⟩ := by
  intro root hwell harrives
  have hblock := lookup_of_entry (harrives.lookup hwell) hentry
  exact ⟨scope, path, entries, source, block, harrives, hentry, rfl, hblock.2, h⟩

/-- What is located from a part is so from any part that the expansion passes on
its way. -/
theorem LocatedFrom.outward {inner : Scope} {place : Path} {part value : Value}
    {diagnostic : Diagnostic} (h : LocatedFrom c inner place value diagnostic)
    (hway : ∀ root, Arrives c root scope path part → Arrives c root inner place value) :
    LocatedFrom c scope path part diagnostic :=
  fun root hwell harrives => h root hwell (hway root harrives)

end StackTemplate.Expansion
