import StackTemplate.Proofs.ExpansionSteps

/-!
# Expansion against unrolling

The expansion of a template follows the unrolling. It succeeds exactly if the
unrolling meets no malformed loop and builds no mapping with a repeated key, and
then both have the same result. So no entry is dropped or overwritten, and a key
reported as a duplicate is one. A diagnostic stands where the document is at fault.
-/

namespace StackTemplate

namespace Template

/-- A template is expanded from the empty cache. The outcome is a clean unrolling,
or a diagnostic that is right about the unrolling and located in the document. -/
theorem expand_outcome (template : Template) (settings : Settings) :
    match template.expand settings with
    | .ok value =>
      (Unrolling.unroll (template.context settings) .root template.root).Clean value
    | .error diagnostic =>
      (Unrolling.unroll (template.context settings) .root template.root).Faulted diagnostic ∧
        Expansion.LocatedFrom (template.context settings) .root [] template.root diagnostic := by
  have hfollows := Expansion.agrees (template.context settings) template.root .root []
  unfold Template.expand
  cases hfollows with
  | fails hbad hrun =>
    rw [hrun {} .start]
    exact hbad
  | gives hclean hrun =>
    obtain ⟨later, -, hhere⟩ := hrun {} .start
    rw [hhere]
    exact hclean

/-- Expansion never drops or overwrites an entry: it succeeds exactly with the
result of an unrolling that meets no malformed loop and builds no mapping with
a repeated key. If there is no malformed loop but a repeated key, it reports a
key that some mapping has repeatedly. -/
theorem expand_eq_ok_iff_unroll (template : Template) (settings : Settings) :
    (∀ value, template.expand settings = .ok value ↔
      ∃ built, template.unroll settings = some (value, built) ∧ ∀ keys ∈ built, keys.Nodup) ∧
    ∀ value built, template.unroll settings = some (value, built) →
      (∃ keys ∈ built, ¬keys.Nodup) →
      ∃ key path node, template.expand settings = .error ⟨.duplicateKey key, path, node⟩ ∧
        ∃ keys ∈ built, 2 ≤ keys.count key := by
  have houtcome := expand_outcome template settings
  cases hexpand : template.expand settings with
  | ok result =>
    rw [hexpand] at houtcome
    obtain ⟨built, hunroll, hnodup⟩ := houtcome
    refine ⟨fun value => ⟨?_, ?_⟩, ?_⟩
    · intro hvalue
      cases hvalue
      exact ⟨built, hunroll, hnodup⟩
    · rintro ⟨other, hother, -⟩
      cases hunroll.symm.trans hother
      rfl
    · rintro value other hother ⟨keys, hkeys, hrepeated⟩
      cases hunroll.symm.trans hother
      exact absurd (hnodup keys hkeys) hrepeated
  | error diagnostic =>
    rw [hexpand] at houtcome
    refine ⟨fun value => ⟨?_, ?_⟩, ?_⟩
    · intro hvalue
      cases hvalue
    · rintro ⟨built, hunroll, hnodup⟩
      obtain ⟨key, -, keys, hkeys, hcount⟩ := houtcome.1 value built hunroll
      have honce := List.nodup_iff_count_le_one.mp (hnodup keys hkeys) key
      omega
    · intro value built hunroll _
      obtain ⟨key, hfault, hkeys⟩ := houtcome.1 value built hunroll
      refine ⟨key, diagnostic.path, diagnostic.node, ?_, hkeys⟩
      rw [← hfault]

/-- A stack with a loop that makes queues, one of which is there already. -/
def queueTemplate : Template where
  root := .object [("Resources", .object [
    ("QueueA", .object [("Type", .string "Queue")]),
    ("Fn::ForEach::Queues", .array [.string "Name", .array [.string "A", .string "B"],
      .object [("Queue${Name}", .object [("Type", .string "Queue")])]])])]

/-- The keys of the mappings that the stack comes to. -/
def queueKeys : List (List String) :=
  [["Type"], ["Type"], ["QueueA"], ["Type"], ["QueueB"], ["QueueA", "QueueA", "QueueB"],
    ["Resources"]]

theorem expand_reports_repeated_queue :
    (∃ keys ∈ queueKeys, ¬keys.Nodup) ∧
      ∃ key path node, queueTemplate.expand {} = .error ⟨.duplicateKey key, path, node⟩ ∧
        ∃ keys ∈ queueKeys, 2 ≤ keys.count key := by
  have hunroll : ∃ value, queueTemplate.unroll {} = some (value, queueKeys) := ⟨_, rfl⟩
  have hrepeated : ∃ keys ∈ queueKeys, ¬keys.Nodup := by decide
  obtain ⟨value, hunroll⟩ := hunroll
  exact ⟨hrepeated, (expand_eq_ok_iff_unroll queueTemplate {}).2 value _ hunroll hrepeated⟩

/-- Diagnostics point into the document as it was written. If an expansion fails,
the path of its diagnostic leads to the value of an entry, in a mapping that the
expansion comes to, and ends with the key of this entry. A malformed loop is this
value, and a collection without items is the second part of it. If a key is
repeated, then the value is at fault and the entry is the one that produces the
key for the second time. -/
theorem expand_error_located (template : Template) (settings : Settings)
    (diagnostic : Diagnostic) (hwell : template.root.WellFormed)
    (h : template.expand settings = .error diagnostic) :
    Expansion.Located (template.context settings) template.root diagnostic := by
  have houtcome := expand_outcome template settings
  rw [h] at houtcome
  exact houtcome.2 template.root hwell .start

/-- The queue that is there already is reported at the loop that makes it. -/
theorem expand_queueTemplate_located :
    queueTemplate.root.WellFormed ∧ ∃ node,
      queueTemplate.expand {} = .error ⟨.duplicateKey "QueueA",
        [.key "Resources", .key "Fn::ForEach::Queues"], node⟩ ∧
      Expansion.Located (queueTemplate.context {}) queueTemplate.root ⟨.duplicateKey "QueueA",
        [.key "Resources", .key "Fn::ForEach::Queues"], node⟩ := by
  have hwell : queueTemplate.root.WellFormed := by
    simp [queueTemplate, Value.WellFormed, Value.itemsWellFormed, Value.entriesWellFormed,
      Entries.Distinct, Entries.keys]
  have hexpand : ∃ node, queueTemplate.expand {} = .error ⟨.duplicateKey "QueueA",
      [.key "Resources", .key "Fn::ForEach::Queues"], node⟩ := ⟨_, rfl⟩
  obtain ⟨node, hexpand⟩ := hexpand
  exact ⟨hwell, node, hexpand, expand_error_located queueTemplate {} _ hwell hexpand⟩

end Template

end StackTemplate
