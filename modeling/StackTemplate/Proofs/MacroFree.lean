import StackTemplate.Proofs.Locality
import StackTemplate.Proofs.LoopKeys
import StackTemplate.Proofs.Staging

/-!
# Documents without macros

Outside of all loops no name is bound, so references, substituted texts, map
lookups and keys are left alone. Only two things are rewritten there: loops, and
calls that write a value as JSON text, if the value holds no reserved key. A
document with neither is expanded to itself.
-/

namespace StackTemplate

/-- The key of the call that writes a value as JSON text. -/
theorem Intrinsic.eq_of_functionOfKey?_toJsonString {key : String}
    (h : functionOfKey? key = some .toJsonString) : key = "Fn::ToJsonString" := by
  obtain ⟨hkind, -⟩ := Option.filter_eq_some_iff.mp h
  unfold ofKey? at hkind
  split at hkind
  case h_5 => rfl
  case h_19 => split at hkind <;> cases hkind
  all_goals cases hkind

namespace Value

/-- Whether a value is anything but a call that writes its argument as JSON text
at once: the argument of such a call has to hold a reserved key. -/
def keepsJsonCall : Value → Bool
  | .object [("Fn::ToJsonString", args)] => args.usesIntrinsic
  | _ => true

/-- Nothing in a value is rewritten outside of loops. -/
structure MacroFree (value : Value) : Prop where
  /-- There are no loops. -/
  loopFree : value.LoopFree
  /-- No call writes JSON text at once. -/
  keepsJsonCalls : ∀ part ∈ value.parts, part.keepsJsonCall = true

instance (value : Value) : Decidable value.MacroFree :=
  decidable_of_iff (value.LoopFree ∧ ∀ part ∈ value.parts, part.keepsJsonCall = true)
    ⟨fun ⟨hloops, hcalls⟩ => ⟨hloops, hcalls⟩, fun h => ⟨h.loopFree, h.keepsJsonCalls⟩⟩

/-- The parts of a value without macros have none. -/
theorem MacroFree.part {value part : Value} (h : value.MacroFree) (hpart : part ∈ value.parts) :
    part.MacroFree where
  loopFree := loopFree_iff.mpr fun inner hinner =>
    loopFree_iff.mp h.loopFree inner (parts_subset hpart hinner)
  keepsJsonCalls inner hinner := h.keepsJsonCalls inner (parts_subset hpart hinner)

end Value

namespace Expansion

/-- No placeholder of a key is replaced outside of loops. -/
theorem substituteKey_root (key : String) : substituteKey .root key = key :=
  Placeholder.substituteForms_text_eq_self fun _ _ _ => rfl

/-- No placeholder of a text is replaced outside of loops. -/
theorem substituteText_root_eq_self (ownNames : List (String × Value)) (text : String) :
    substituteText .root ownNames text = text := by
  refine Placeholder.substituteForms_text_eq_self fun form name _ => ?_
  have hunbound : (if Entries.contains (String.ofList name) ownNames then none
      else Scope.root.get? (String.ofList name)) = none := ite_self none
  rw [Placeholder.rendered?, hunbound, Option.bind_none]

end Expansion

namespace Unrolling

open Expansion (substituteKey substituteText foundInMap? rebuild substituteKey_root
  substituteText_root_eq_self)

variable {c : Context}

/-- Items that are unrolled to themselves make a list that is. -/
theorem clean_unrollItems {items : List Value}
    (h : ∀ item ∈ items, (unroll c .root item).Clean item) :
    (unrollItems c .root items).Clean items := by
  induction items with
  | nil => exact .pure []
  | cons item items ih =>
    have hrest := ih fun other hother => h other (List.mem_cons_of_mem _ hother)
    rw [unrollItems]
    exact (h item List.mem_cons_self).bind (hrest.bind (.pure _))

/-- Entries without loops whose values are unrolled to themselves keep their keys. -/
theorem clean_unrollEntries {entries : List (String × Value)}
    (hkeys : ∀ entry ∈ entries, Intrinsic.isForEachKey entry.1 = false)
    (h : ∀ entry ∈ entries, (unroll c .root entry.2).Clean entry.2) :
    (unrollEntries c .root entries).Clean entries := by
  induction entries with
  | nil => exact .pure []
  | cons entry entries ih =>
    obtain ⟨key, value⟩ := entry
    have hplain : ¬Intrinsic.ofKey? key = some .forEach := by
      rw [Intrinsic.ofKey?_eq_forEach_iff, hkeys _ List.mem_cons_self]
      exact Bool.false_ne_true
    have hhere := h _ List.mem_cons_self
    have hrest := ih (fun other hother => hkeys other (List.mem_cons_of_mem _ hother))
      fun other hother => h other (List.mem_cons_of_mem _ hother)
    rw [unrollEntries, if_neg hplain, substituteKey_root]
    exact (hhere.bind (.pure [(key, value)])).bind (hrest.bind (.pure ((key, value) :: entries)))

/-- A call without macros is unrolled to itself if its arguments are. The cases are
those of a reference, a substitution in its two forms, a map lookup, and the other
calls. -/
theorem clean_unrollCall {key : String} {args : Value} {kind : Intrinsic}
    (hkind : Intrinsic.functionOfKey? key = some kind)
    (hfree : (Value.object [(key, args)]).MacroFree)
    (h : ∀ part : Value, part.Within (.object [(key, args)]) → (unroll c .root part).Clean part) :
    (unroll c .root (.object [(key, args)])).Clean (.object [(key, args)]) := by
  have hkept : rebuild key args = .object [(key, args)] := by
    refine if_neg ?_
    rintro ⟨hjson, hclosed⟩
    cases Intrinsic.eq_of_functionOfKey?_toJsonString hjson
    have hopen : args.usesIntrinsic = true := hfree.keepsJsonCalls _ (Value.mem_parts_self _)
    rw [hopen] at hclosed
    cases hclosed
  have hrebuilt : Clean (do return rebuild key (← unroll c .root args))
      (.object [(key, args)]) := by
    refine (h args (.entry List.mem_cons_self)).bind ?_
    rw [hkept]
    exact .pure _
  rw [unroll.eq_def]
  dsimp only
  rw [hkind]
  split
  · exact .pure _
  · next text hsub =>
    rw [substituteText_root_eq_self]
    exact .pure _
  · next text ownNames hsub =>
    rw [substituteText_root_eq_self]
    exact (h (.object ownNames) (.argument (by simp))).bind (.pure _)
  · exact hrebuilt
  · exact hrebuilt
  · next hnone => cases hnone

/-- A well-formed value without macros is unrolled to itself. -/
theorem clean_unroll {value : Value} (hwell : value.WellFormed) (hfree : value.MacroFree) :
    (unroll c .root value).Clean value := by
  induction value using Value.partInduction with
  | step value ih =>
    have hinside : ∀ part : Value, part.Within value → (unroll c .root part).Clean part :=
      fun part hpart => ih part hpart (hwell.part hpart.mem_parts) (hfree.part hpart.mem_parts)
    cases value with
    | array items =>
      rw [unroll]
      exact (clean_unrollItems fun item hitem => hinside item (.item hitem)).bind (.pure _)
    | object entries =>
      cases hcall : (Value.object entries).call? with
      | none =>
        have hkeys : ∀ entry ∈ entries, Intrinsic.isForEachKey entry.1 = false :=
          fun entry hentry => (Value.loopFree_object.mp hfree.loopFree entry hentry).1
        rw [unroll_of_plain hcall]
        exact (clean_unrollEntries hkeys fun entry hentry => hinside _ (.entry hentry)).bind
          (clean_build hwell.1)
      | some call =>
        obtain ⟨key, heq, hkind⟩ := Value.eq_of_call? hcall
        cases heq
        exact clean_unrollCall hkind hfree hinside
    | _ => exact .pure _

end Unrolling

namespace Template

/-- A document without loops, and without calls that write a value with no
reserved key as JSON text, is expanded to itself, whatever settings are given.
References, placeholders, ternaries, map lookups and malformed calls stay, and so
does the order of keys. -/
theorem expand_of_macroFree (template : Template) (settings : Settings)
    (hwell : template.root.WellFormed) (hfree : template.root.MacroFree) :
    template.expand settings = .ok template.root := by
  have hfollows := Expansion.agrees (template.context settings) template.root .root []
  rw [Expansion.expand_eq_outcome, hfollows.outcome_eq_ok_iff .start]
  exact Unrolling.clean_unroll hwell hfree

/-- A stack that mentions everything that is rewritten inside loops, a loop key
without a name, and malformed calls. -/
def plainTemplate : Template where
  root := .object [
    ("Resources", .object [
      ("Bucket${Name}", .object [
        ("Name", .object [("Fn::Sub", .array [.string "${AWS::StackName}-${Key}",
          .object [("Key", .object [("Ref", .string "Key")])]])]),
        ("Size", .object [("Fn::FindInMap", .array [.string "Sizes",
          .object [("Ref", .string "Stage")]])]),
        ("Tags", .array [.object [("Fn::If", .array [.string "IsProd", .integer 1, .null])],
          .object [("Fn::Sub", .integer 2)]])]),
      ("Fn::ForEach::", .string "no loop")]),
    ("Outputs", .object [("Policy", .object [("Fn::ToJsonString",
      .object [("Arn", .object [("Fn::GetAtt", .array [.string "Bucket", .string "Arn"])])])])])]

theorem expand_plainTemplate :
    plainTemplate.root.WellFormed ∧ plainTemplate.root.MacroFree ∧
      plainTemplate.expand {} = .ok plainTemplate.root := by
  have hwell : plainTemplate.root.WellFormed := by
    simp [plainTemplate, Value.WellFormed, Value.itemsWellFormed, Value.entriesWellFormed,
      Entries.Distinct, Entries.keys]
  have hfree : plainTemplate.root.MacroFree := by decide
  exact ⟨hwell, hfree, expand_of_macroFree plainTemplate {} hwell hfree⟩

end Template

end StackTemplate
