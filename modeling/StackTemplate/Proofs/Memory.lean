import StackTemplate.Analysis.Basic

/-!
# Remembered answers

An analysis remembers what it found about paths, and several kinds of questions
share this memory. No question changes what another one is told: a reply never
depends on what was asked before, because an answer is remembered under
everything that it depends on, and nothing but right answers is remembered.
-/

namespace StackTemplate.Analysis

/-- What an analysis can be asked. -/
inductive Question where
  /-- The conditions that gate a path. -/
  | conditionsAlong (query : PathQuery)
  /-- The scenarios that decide the ternaries below a path. -/
  | scenariosBelow (path : Path) (insideFunctions : Bool) (region : Option String)
  /-- The shapes of a value. -/
  | flatten (preserveShape : Bool) (value : Value)
  /-- The scenarios in which a reference dangles. -/
  | danglingScenarios (path : Path) (resource : String)

/-- What an analysis replies. -/
inductive Reply where
  /-- Conditions with their truth values. -/
  | constraints (constraints : Constraints)
  /-- Scenarios. -/
  | scenarios (scenarios : List Scenario)
  /-- Shapes of a value. -/
  | shapes (shapes : List Flattened)

/-- The reply to a question, and the analysis that remembers what was found. -/
def ask (analysis : Analysis) : Question → Reply × Analysis
  | .conditionsAlong query => (analysis.conditionsAlong query).map .constraints id
  | .scenariosBelow path insideFunctions region =>
    (analysis.scenariosBelow path insideFunctions region).map .scenarios id
  | .flatten preserveShape value => (.shapes (analysis.flatten preserveShape value), analysis)
  | .danglingScenarios path resource =>
    (analysis.danglingScenarios path resource).map .scenarios id

/-- The replies to questions that are asked one after the other. -/
def replies (analysis : Analysis) : List Question → List Reply
  | [] => []
  | question :: questions =>
    (analysis.ask question).1 :: (analysis.ask question).2.replies questions

/-- The analysis before anything was asked. -/
def fresh (analysis : Analysis) : Analysis := { analysis with answers := [] }

/-- Every remembered answer is what the walk along its path finds. -/
def Recalls (analysis : Analysis) : Prop :=
  ∀ answer ∈ analysis.answers, answer.2 = answer.1.constraints analysis.template.root

/-- At first there is nothing that could be wrong. -/
theorem recalls_fresh (analysis : Analysis) : analysis.fresh.Recalls :=
  fun _ h => absurd h List.not_mem_nil

/-- A way to ask that does not let the memory through: the reply is that of the
analysis before anything was asked, which is also what forgetting leads back
to, and the memory stays right. -/
structure Transparent {α : Type} (question : Analysis → α × Analysis) : Prop where
  /-- The reply does not depend on what is remembered. -/
  reply : ∀ analysis, analysis.Recalls → (question analysis).1 = (question analysis.fresh).1
  /-- Nothing wrong is remembered. -/
  recalls : ∀ analysis, analysis.Recalls → (question analysis).2.Recalls
  /-- Only the memory changes. -/
  fresh : ∀ analysis, (question analysis).2.fresh = analysis.fresh

/-- What has nothing to do with the memory stays the same. -/
theorem Transparent.same {α β : Type} {question : Analysis → α × Analysis}
    (h : Transparent question) (part : Analysis → β)
    (hpart : ∀ analysis, part analysis.fresh = part analysis) (analysis : Analysis) :
    part (question analysis).2 = part analysis := by
  rw [← hpart (question analysis).2, h.fresh, hpart]

/-- A remembered answer is the right one. -/
theorem Recalls.remembered? {analysis : Analysis} (h : analysis.Recalls) {query : PathQuery}
    {constraints : Constraints} (hremembered : analysis.remembered? query = some constraints) :
    constraints = query.constraints analysis.template.root := by
  obtain ⟨answer, hfound, rfl⟩ := Option.map_eq_some_iff.mp hremembered
  have hquery : decide (answer.1 = query) = true := by simpa using List.find?_some hfound
  rw [h answer (List.mem_of_find?_eq_some hfound), of_decide_eq_true hquery]

/-- The answer about a path is what the walk along it finds. -/
theorem Recalls.conditionsAlong_fst {analysis : Analysis} (h : analysis.Recalls)
    (query : PathQuery) :
    (analysis.conditionsAlong query).1 = query.constraints analysis.template.root := by
  unfold conditionsAlong
  split
  · next constraints hremembered => exact h.remembered? hremembered
  · rfl

/-- Questions about the conditions along a path are transparent. -/
theorem transparent_conditionsAlong (query : PathQuery) :
    Transparent fun analysis => analysis.conditionsAlong query where
  reply analysis h := by
    rw [h.conditionsAlong_fst, analysis.recalls_fresh.conditionsAlong_fst]
    rfl
  recalls analysis h := by
    unfold conditionsAlong
    split
    · exact h
    · exact List.forall_mem_cons.mpr ⟨rfl, h⟩
  fresh analysis := by
    unfold conditionsAlong
    split <;> rfl

/-- Questions about the scenarios below a path are transparent. -/
theorem transparent_scenariosBelow (path : Path) (insideFunctions : Bool)
    (region : Option String) :
    Transparent fun analysis => analysis.scenariosBelow path insideFunctions region where
  reply analysis h := by
    have hsame : analysis.fresh.template.root = analysis.template.root := rfl
    simp only [scenariosBelow, hsame]
    cases analysis.template.root.lookup path with
    | none => rfl
    | some part =>
      dsimp only
      rw [(transparent_conditionsAlong _).reply analysis h]
      cases ternaryConditions insideFunctions part with
      | nil => rfl
      | cons name names =>
        have hbuilt := (transparent_conditionsAlong ⟨path, insideFunctions, false⟩).same scenarios
          fun _ => rfl
        dsimp only at hbuilt ⊢
        rw [hbuilt, hbuilt]
        rfl
  recalls analysis h := by
    unfold scenariosBelow
    split
    · exact h
    · dsimp only
      split <;> exact (transparent_conditionsAlong _).recalls analysis h
  fresh analysis := by
    unfold scenariosBelow
    split
    · rfl
    · dsimp only
      split <;> exact (transparent_conditionsAlong _).fresh analysis

/-- Questions about dangling references are transparent. -/
theorem transparent_danglingScenarios (path : Path) (resource : String) :
    Transparent fun analysis => analysis.danglingScenarios path resource where
  reply analysis h := by
    have hsame : analysis.fresh.template = analysis.template := rfl
    simp only [danglingScenarios, hsame]
    cases analysis.template.resourceCondition? resource with
    | none => rfl
    | some guard =>
      have hguarded := (transparent_conditionsAlong ⟨path, true, false⟩).same guarded fun _ => rfl
      have hfresh : analysis.fresh.guarded = analysis.guarded := rfl
      dsimp only at hguarded ⊢
      rw [(transparent_conditionsAlong _).reply analysis h, hguarded, hguarded, hfresh]
      split <;> rfl
  recalls analysis h := by
    unfold danglingScenarios
    split
    · exact h
    · dsimp only
      split <;> exact (transparent_conditionsAlong _).recalls analysis h
  fresh analysis := by
    unfold danglingScenarios
    split
    · rfl
    · dsimp only
      split <;> exact (transparent_conditionsAlong _).fresh analysis

/-- A reply may be wrapped. -/
theorem Transparent.map {α β : Type} {question : Analysis → α × Analysis}
    (h : Transparent question) (wrap : α → β) :
    Transparent fun analysis => (question analysis).map wrap id where
  reply analysis hrecalls := congrArg wrap (h.reply analysis hrecalls)
  recalls := h.recalls
  fresh := h.fresh

/-- Every question is transparent. -/
theorem transparent_ask (question : Question) :
    Transparent fun analysis => analysis.ask question := by
  cases question with
  | conditionsAlong query => exact (transparent_conditionsAlong query).map _
  | scenariosBelow path insideFunctions region =>
    exact (transparent_scenariosBelow path insideFunctions region).map _
  | flatten preserveShape value => exact ⟨fun _ _ => rfl, fun _ h => h, fun _ => rfl⟩
  | danglingScenarios path resource =>
    exact (transparent_danglingScenarios path resource).map _

/-- Questions to an analysis whose memory is right get the replies that each of
them would get first. -/
theorem Recalls.replies_eq {analysis : Analysis} (h : analysis.Recalls)
    (questions : List Question) :
    analysis.replies questions =
      questions.map fun question => (analysis.fresh.ask question).1 := by
  induction questions generalizing analysis with
  | nil => rfl
  | cons question questions ih =>
    have hlater := (transparent_ask question).recalls analysis h
    rw [replies, List.map_cons, (transparent_ask question).reply analysis h, ih hlater,
      (transparent_ask question).fresh]

/-- Whatever an analysis was asked before, every question gets the reply that a
new analysis of the same template, with the same builder and region, gives. -/
theorem replies_eq_map_first (template : Template) (builder : ScenarioBuilder)
    (region : Option String) (questions : List Question) :
    replies ⟨template, builder, region, []⟩ questions =
      questions.map fun question => (ask ⟨template, builder, region, []⟩ question).1 :=
  Recalls.replies_eq (recalls_fresh ⟨template, builder, region, []⟩) questions

end StackTemplate.Analysis
