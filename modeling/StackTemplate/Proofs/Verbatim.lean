import Mathlib.Data.List.Basic
import StackTemplate.Evaluator
import StackTemplate.Proofs.Scanning

/-!
# Values in substituted texts

The evaluation of a substitution puts values into a text and undoes escapes
afterwards, in the whole text that came out. Values are put in as they are, and
escapes are undone in the text's own words only, exactly if every escape that
then stands in the text stands inside one of its literal pieces. It does not
where a value holds an escape, or where one comes about at the border of a
value.
-/

namespace StackTemplate

namespace Placeholder

/-- How an escaped placeholder begins. -/
def escapeMark : List Char := ['$', '\x7b', '!']

/-- An escape begins at a position of a text. -/
def EscapeAt (text : List Char) (position : Nat) : Prop :=
  (text.drop position).take 3 = escapeMark

instance (text : List Char) (position : Nat) : Decidable (EscapeAt text position) :=
  inferInstanceAs (Decidable ((text.drop position).take 3 = escapeMark))

/-- The number of escapes in a text. -/
def escapes : List Char → Nat
  | [] => 0
  | c :: text => escapes text + if EscapeAt (c :: text) 0 then 1 else 0

variable {text first second : List Char} {position : Nat}

/-- An escape has three characters. -/
theorem EscapeAt.le_length (h : EscapeAt text position) : position + 3 ≤ text.length := by
  have hlength := congrArg List.length h
  simp only [List.length_take, List.length_drop, escapeMark, List.length_cons, List.length_nil]
    at hlength
  omega

/-- Escapes inside the first of two texts. -/
theorem escapeAt_append_left (h : position + 3 ≤ first.length) :
    EscapeAt (first ++ second) position ↔ EscapeAt first position := by
  have hdrop : (first ++ second).drop position = first.drop position ++ second :=
    List.drop_append_of_le_length (by omega)
  have htake : (first.drop position ++ second).take 3 = (first.drop position).take 3 :=
    List.take_append_of_le_length (by simp only [List.length_drop]; omega)
  rw [EscapeAt, hdrop, htake, EscapeAt]

/-- Escapes inside the second of two texts. -/
theorem escapeAt_append_right :
    EscapeAt (first ++ second) (first.length + position) ↔ EscapeAt second position := by
  rw [EscapeAt, List.drop_length_add_append, EscapeAt]

/-- A text begins with an escape if it has its characters. -/
theorem escapeAt_zero_iff : EscapeAt text 0 ↔ ∃ rest, text = '$' :: '\x7b' :: '!' :: rest := by
  constructor
  · intro h
    have hsplit := List.take_append_drop 3 text
    have hbegins : text.take 3 = escapeMark := h
    rw [hbegins] at hsplit
    exact ⟨text.drop 3, hsplit.symm⟩
  · rintro ⟨rest, rfl⟩
    rfl

/-- A character that begins no escape is kept. -/
theorem unescapeChars_cons {c : Char} (h : ¬EscapeAt (c :: text) 0) :
    unescapeChars (c :: text) = c :: unescapeChars text := by
  rw [unescapeChars.eq_def]
  split
  · next rest he => exact absurd (escapeAt_zero_iff.mpr ⟨rest, he⟩) h
  · next he =>
    cases he
    rfl
  · next he => cases he

/-- Texts without escapes are kept. -/
theorem unescapeChars_eq_self (h : ∀ position, ¬EscapeAt text position) :
    unescapeChars text = text := by
  induction text with
  | nil => rfl
  | cons c text ih => rw [unescapeChars_cons (h 0), ih fun position => h (position + 1)]

/-- What is shown of all texts by undoing their escapes: of the empty text, of a
text after an escape, and of a text after a character that begins none. -/
theorem escapeInduction {motive : List Char → Prop} (nil : motive [])
    (escape : ∀ rest, motive rest → motive ('$' :: '\x7b' :: '!' :: rest))
    (char : ∀ c rest, ¬EscapeAt (c :: rest) 0 → motive rest → motive (c :: rest))
    (text : List Char) : motive text := by
  induction text using unescapeChars.induct with
  | case1 rest ih => exact escape rest ih
  | case2 c rest hplain ih =>
    refine char c rest (fun hescape => ?_) ih
    obtain ⟨later, he⟩ := escapeAt_zero_iff.mp hescape
    cases he
    exact hplain later rfl rfl
  | case3 => exact nil

/-- Escapes are undone in one text after another, if none of them begins in the
first text and ends in the second. -/
theorem unescapeChars_append
    (h : ∀ position < first.length, EscapeAt (first ++ second) position →
      position + 3 ≤ first.length) :
    unescapeChars (first ++ second) = unescapeChars first ++ unescapeChars second := by
  induction first using escapeInduction with
  | nil => rfl
  | escape rest ih =>
    have hrest : unescapeChars (rest ++ second) = unescapeChars rest ++ unescapeChars second := by
      refine ih fun position hposition hescape => ?_
      have hlater := h (position + 3) (by simpa using hposition) hescape
      simpa using hlater
    simp only [List.cons_append, unescapeChars, hrest]
  | char c rest hplain ih =>
    have hnone : ¬EscapeAt (c :: rest ++ second) 0 := fun hescape =>
      hplain ((escapeAt_append_left (h 0 (by simp) hescape)).mp hescape)
    have hrest : unescapeChars (rest ++ second) = unescapeChars rest ++ unescapeChars second := by
      refine ih fun position hposition hescape => ?_
      have hlater := h (position + 1) (by simpa using hposition) hescape
      simpa using hlater
    rw [List.cons_append] at hnone ⊢
    rw [unescapeChars_cons hnone, unescapeChars_cons hplain, hrest, List.cons_append]

/-- A character that begins an escape counts. -/
theorem escapes_cons_of_escapeAt {c : Char} (h : EscapeAt (c :: text) 0) :
    escapes (c :: text) = escapes text + 1 := by
  rw [escapes, if_pos h]

/-- Any other character does not. -/
theorem escapes_cons_of_not {c : Char} (h : ¬EscapeAt (c :: text) 0) :
    escapes (c :: text) = escapes text := by
  rw [escapes, if_neg h, Nat.add_zero]

/-- Every escape that is undone takes one character. -/
theorem length_unescapeChars (text : List Char) :
    (unescapeChars text).length + escapes text = text.length := by
  induction text using escapeInduction with
  | nil => rfl
  | escape rest ih =>
    have hcount : escapes ('$' :: '\x7b' :: '!' :: rest) = escapes rest + 1 := by
      simp [escapes, EscapeAt, escapeMark]
    simp only [unescapeChars, List.length_cons]
    omega
  | char c rest hplain ih =>
    rw [unescapeChars_cons hplain, escapes_cons_of_not hplain, List.length_cons, List.length_cons]
    omega

/-- A character in front that begins an escape of one text begins an escape of
its continuations. -/
theorem escapes_cons_add_le (c : Char) (first second : List Char) :
    escapes (c :: first) + escapes (first ++ second) ≤
      escapes first + escapes (c :: (first ++ second)) := by
  by_cases h : EscapeAt (c :: first) 0
  · have hlonger : EscapeAt (c :: (first ++ second)) 0 :=
      (escapeAt_append_left h.le_length).mpr h
    rw [escapes_cons_of_escapeAt h, escapes_cons_of_escapeAt hlonger]
    omega
  · rw [escapes_cons_of_not h, escapes]
    omega

/-- The escapes of two texts are escapes of one after the other. -/
theorem escapes_add_le (first second : List Char) :
    escapes first + escapes second ≤ escapes (first ++ second) := by
  induction first with
  | nil => simp [escapes]
  | cons c first ih =>
    have hfirst := escapes_cons_add_le c first second
    rw [List.cons_append]
    omega

/-- An escape that begins in one text and ends in the next is one more. -/
theorem escapes_add_lt (h : EscapeAt (first ++ second) position)
    (hbegins : position < first.length) (hends : first.length < position + 3) :
    escapes first + escapes second < escapes (first ++ second) := by
  induction first generalizing position with
  | nil => cases hbegins
  | cons c first ih =>
    rw [List.cons_append] at h ⊢
    cases position with
    | zero =>
      have hshort : ¬EscapeAt (c :: first) 0 := fun hescape => by
        have hlength := hescape.le_length
        omega
      have hrest := escapes_add_le first second
      rw [escapes_cons_of_escapeAt h, escapes_cons_of_not hshort]
      omega
    | succ position =>
      rw [List.length_cons] at hbegins hends
      have hfirst := escapes_cons_add_le c first second
      have hrest := ih h (by omega) (by omega)
      omega

/-- A text with an escape has one at least. -/
theorem EscapeAt.escapes_pos (h : EscapeAt text position) : 0 < escapes text := by
  induction text generalizing position with
  | nil =>
    have hlength := h.le_length
    cases hlength
  | cons c text ih =>
    rw [escapes]
    cases position with
    | zero =>
      rw [if_pos h]
      omega
    | succ position =>
      have hrest := ih h
      omega

/-- What a piece contributes if escapes are undone in literal pieces and the texts
of values are put in as they are. -/
def Piece.verbatim (lookup : String → Option Value) : Piece → List Char
  | .literal text => unescapeChars text
  | .hole form name => (rendered? lookup form name).getD []

/-- Every escape of the filled text stands inside a literal piece. Those that the
text has itself always do, for a mark and an opening brace begin a piece. -/
def OwnEscapes (lookup : String → Option Value) (parts : List Piece) : Prop :=
  ∀ position, EscapeAt (parts.flatMap (Piece.fill lookup)) position →
    ∃ earlier own later, parts = earlier ++ .literal own :: later ∧
      (earlier.flatMap (Piece.fill lookup)).length ≤ position ∧
      position + 3 ≤ (earlier.flatMap (Piece.fill lookup)).length + own.length

/-- The number of escapes that a piece has of its own. -/
def Piece.ownEscapes : Piece → Nat
  | .literal text => escapes text
  | .hole _ _ => 0

/-- The number of own escapes of all pieces. -/
def ownEscapes : List Piece → Nat
  | [] => 0
  | piece :: parts => piece.ownEscapes + ownEscapes parts

variable {lookup : String → Option Value} {piece : Piece} {parts : List Piece}

/-- The text of a value is put in as it is. -/
theorem Piece.verbatim_hole {form : Form} {name : List Char}
    (h : rendered? lookup form name ≠ none) :
    (Piece.hole form name).verbatim lookup = (Piece.hole form name).fill lookup := by
  obtain ⟨text, htext⟩ := Option.ne_none_iff_exists.mp h
  rw [Piece.verbatim, Piece.fill_hole, ← htext, Option.getD_some, Option.getD_some]

/-- A piece has no more escapes of its own than its text has. -/
theorem Piece.ownEscapes_le (lookup : String → Option Value) (piece : Piece) :
    piece.ownEscapes ≤ escapes (piece.fill lookup) := by
  cases piece with
  | literal text => exact Nat.le_refl _
  | hole form name => exact Nat.zero_le _

/-- Of the filled text, what is put in as it is lacks one character for each own
escape. -/
theorem length_verbatim (hrendered : Rendered lookup parts) :
    (parts.flatMap (Piece.verbatim lookup)).length + ownEscapes parts =
      (parts.flatMap (Piece.fill lookup)).length := by
  induction parts with
  | nil => rfl
  | cons piece parts ih =>
    have hrest := ih fun form name h => hrendered form name (List.mem_cons_of_mem _ h)
    have hpiece : (piece.verbatim lookup).length + piece.ownEscapes =
        (piece.fill lookup).length := by
      cases piece with
      | literal text => exact length_unescapeChars text
      | hole form name =>
        rw [Piece.verbatim_hole (hrendered form name List.mem_cons_self)]
        rfl
    simp only [List.flatMap_cons, ownEscapes, List.length_append]
    omega

/-- The filled text has the own escapes of all pieces at least. -/
theorem ownEscapes_le (lookup : String → Option Value) (parts : List Piece) :
    ownEscapes parts ≤ escapes (parts.flatMap (Piece.fill lookup)) := by
  induction parts with
  | nil => exact Nat.le_refl _
  | cons piece parts ih =>
    have hpiece := Piece.ownEscapes_le lookup piece
    have hboth := escapes_add_le (piece.fill lookup) (parts.flatMap (Piece.fill lookup))
    simp only [List.flatMap_cons, ownEscapes]
    omega

/-- If the filled text has no more than that, all its escapes stand inside literal
pieces. An escape begins in a later piece, or lies inside the first one, or
crosses its end, and the last would be one too many. -/
theorem ownEscapes_of_le
    (h : escapes (parts.flatMap (Piece.fill lookup)) ≤ ownEscapes parts) :
    OwnEscapes lookup parts := by
  induction parts with
  | nil =>
    intro position hescape
    have hlength := hescape.le_length
    cases hlength
  | cons piece parts ih =>
    simp only [List.flatMap_cons, ownEscapes] at h
    have hpiece := Piece.ownEscapes_le lookup piece
    have hrest := ownEscapes_le lookup parts
    have hboth := escapes_add_le (piece.fill lookup) (parts.flatMap (Piece.fill lookup))
    intro position hescape
    rw [List.flatMap_cons] at hescape
    by_cases hafter : (piece.fill lookup).length ≤ position
    · obtain ⟨later, rfl⟩ := Nat.exists_eq_add_of_le hafter
      obtain ⟨before, own, after, hparts, hbegins, hends⟩ :=
        ih (by omega) later (escapeAt_append_right.mp hescape)
      refine ⟨piece :: before, own, after, by rw [hparts, List.cons_append], ?_, ?_⟩
      · rw [List.flatMap_cons, List.length_append]
        omega
      · rw [List.flatMap_cons, List.length_append]
        omega
    · by_cases hinside : position + 3 ≤ (piece.fill lookup).length
      · have hown := ((escapeAt_append_left hinside).mp hescape).escapes_pos
        cases piece with
        | literal text => exact ⟨[], text, parts, rfl, Nat.zero_le _, by simpa [Piece.fill] using hinside⟩
        | hole form name =>
          have hnone : (Piece.hole form name).ownEscapes = 0 := rfl
          omega
      · have hmore := escapes_add_lt hescape (by omega) (by omega)
        omega

/-- An escape of the filled text that begins in the first piece ends there, and the
piece is literal. -/
theorem OwnEscapes.head (h : OwnEscapes lookup (piece :: parts)) {position : Nat}
    (hescape : EscapeAt (piece.fill lookup ++ parts.flatMap (Piece.fill lookup)) position)
    (hbegins : position < (piece.fill lookup).length) :
    position + 3 ≤ (piece.fill lookup).length ∧ ∃ own, piece = .literal own := by
  obtain ⟨earlier, own, later, hparts, hle, hends⟩ := h position hescape
  cases earlier with
  | nil =>
    obtain ⟨rfl, -⟩ := List.cons_eq_cons.mp hparts
    exact ⟨by simpa [Piece.fill] using hends, own, rfl⟩
  | cons first earlier =>
    obtain ⟨rfl, -⟩ := List.cons_eq_cons.mp hparts
    rw [List.flatMap_cons, List.length_append] at hle
    omega

/-- The escapes of the other pieces stand inside literal pieces, too. -/
theorem OwnEscapes.tail (h : OwnEscapes lookup (piece :: parts)) : OwnEscapes lookup parts := by
  intro position hescape
  obtain ⟨earlier, own, later, hparts, hle, hends⟩ :=
    h _ (escapeAt_append_right.mpr hescape)
  cases earlier with
  | nil =>
    obtain ⟨rfl, -⟩ := List.cons_eq_cons.mp hparts
    simp only [List.flatMap_nil, List.length_nil, Piece.fill] at hends
    omega
  | cons first earlier =>
    obtain ⟨rfl, hrest⟩ := List.cons_eq_cons.mp hparts
    rw [List.flatMap_cons, List.length_append] at hle hends
    exact ⟨earlier, own, later, hrest, by omega, by omega⟩

/-- If all escapes stand inside literal pieces, undoing them leaves values as they
are. -/
theorem OwnEscapes.unescapeChars_eq (h : OwnEscapes lookup parts)
    (hrendered : Rendered lookup parts) :
    unescapeChars (parts.flatMap (Piece.fill lookup)) =
      parts.flatMap (Piece.verbatim lookup) := by
  induction parts with
  | nil => rfl
  | cons piece parts ih =>
    have hrest := ih h.tail fun form name hmem => hrendered form name (List.mem_cons_of_mem _ hmem)
    have hpiece : unescapeChars (piece.fill lookup) = piece.verbatim lookup := by
      cases piece with
      | literal text => rfl
      | hole form name =>
        rw [Piece.verbatim_hole (hrendered form name List.mem_cons_self)]
        refine unescapeChars_eq_self fun position hescape => ?_
        have hinside := hescape.le_length
        obtain ⟨-, own, hliteral⟩ :=
          h.head ((escapeAt_append_left hinside).mpr hescape) (by omega)
        cases hliteral
    rw [List.flatMap_cons, List.flatMap_cons, ← hpiece, ← hrest]
    exact unescapeChars_append fun position hbegins hescape => (h.head hescape hbegins).1

/-- Undoing all escapes of a filled text leaves values as they are exactly if the
escapes stand inside literal pieces. Both texts lack one character for each escape
that was undone. -/
theorem unescapeChars_eq_verbatim_iff (hrendered : Rendered lookup parts) :
    unescapeChars (parts.flatMap (Piece.fill lookup)) = parts.flatMap (Piece.verbatim lookup) ↔
      OwnEscapes lookup parts := by
  refine ⟨fun h => ownEscapes_of_le ?_, fun h => h.unescapeChars_eq hrendered⟩
  have hall := length_unescapeChars (parts.flatMap (Piece.fill lookup))
  have hown := length_verbatim hrendered
  rw [h] at hall
  omega

end Placeholder

namespace Evaluator

open Placeholder

variable {e : Evaluator} {args value : Value} {text : String} {ownNames : List (String × Value)}

/-- The arguments of a substitution: a text, alone or in a list, or a text and own
variables. -/
inductive SubArguments : Value → String → List (String × Value) → Prop where
  /-- A text. -/
  | text (text : String) : SubArguments (.string text) text []
  /-- A list of a text alone. -/
  | alone (text : String) : SubArguments (.array [.string text]) text []
  /-- A text and own variables. -/
  | withOwnNames (text : String) (ownNames : List (String × Value)) :
    SubArguments (.array [.string text, .object ownNames]) text ownNames

/-- A substitution is evaluated with the values of its own variables. -/
theorem resolve_sub (hargs : SubArguments args text ownNames) :
    e.resolve (.object [("Fn::Sub", args)]) =
      e.substituteText text (e.entryOutcomes ownNames) := by
  cases hargs <;> rfl

/-- If a text is substituted, every placeholder has a text, and escapes are undone
in what came out. -/
theorem rendered_of_substituteText {outcomes : List (String × Resolved)}
    (h : e.substituteText text outcomes = .ok value) :
    Rendered (e.placeholderValue? outcomes) (pieces .dollar text.toList) ∧
      value = .string (String.ofList (unescapeChars
        ((pieces .dollar text.toList).flatMap (Piece.fill (e.placeholderValue? outcomes))))) := by
  rw [substituteText] at h
  split at h
  · next hcomplete =>
    refine ⟨isComplete_iff_rendered.mp hcomplete, ?_⟩
    rw [← Except.ok.inj h, unescape, substituteDollar, substituteForms, String.toList_ofList]
  · cases h

/-- Where a substitution has a value, every placeholder of the text has a text. The
value is made of the literal pieces, with their own escapes undone, and of these
texts as they are, exactly if every escape of the filled text stands inside a
literal piece. -/
theorem resolve_sub_eq_verbatim_iff (e : Evaluator) (args : Value) (text : String)
    (ownNames : List (String × Value)) (value : Value) (hargs : SubArguments args text ownNames)
    (hresolve : e.resolve (.object [("Fn::Sub", args)]) = .ok value) :
    ∃ output parts, value = .string output ∧ Splits .dollar text.toList parts ∧
      Rendered (e.placeholderValue? (e.entryOutcomes ownNames)) parts ∧
      (output.toList =
          parts.flatMap (Piece.verbatim (e.placeholderValue? (e.entryOutcomes ownNames))) ↔
        OwnEscapes (e.placeholderValue? (e.entryOutcomes ownNames)) parts) := by
  rw [resolve_sub hargs] at hresolve
  obtain ⟨hrendered, rfl⟩ := rendered_of_substituteText hresolve
  refine ⟨_, _, rfl, splits_pieces .dollar text.toList, hrendered, ?_⟩
  rw [String.toList_ofList]
  exact unescapeChars_eq_verbatim_iff hrendered

/-- An evaluator with one parameter. -/
def stageEvaluator : Evaluator where
  context := ⟨[("Stage", .object [("Type", .string "String"), ("Default", .string "prod")])], [],
    "us-east-1"⟩
  scope := .root
  bindingsOnly := false

/-- Own variables with a mark, a brace and an exclamation mark. -/
def priceNames : List (String × Value) := [("Price", .string "$5\x7b!")]

/-- A text with an escape, a parameter and an own variable. -/
def priceText : String := "$\x7b!Name\x7d-$\x7bStage\x7d-$\x7bPrice\x7d"

theorem resolve_priceText :
    stageEvaluator.resolve (.object [("Fn::Sub", .array [.string priceText, .object priceNames])]) =
        .ok (.string "$\x7bName\x7d-prod-$5\x7b!") ∧
      ∃ parts, Splits .dollar priceText.toList parts ∧
        OwnEscapes (stageEvaluator.placeholderValue? (stageEvaluator.entryOutcomes priceNames))
          parts := by
  have hresolve : stageEvaluator.resolve
      (.object [("Fn::Sub", .array [.string priceText, .object priceNames])]) =
        .ok (.string "$\x7bName\x7d-prod-$5\x7b!") := rfl
  obtain ⟨output, parts, houtput, hsplit, -, hown⟩ := resolve_sub_eq_verbatim_iff stageEvaluator _
    priceText priceNames _ (.withOwnNames priceText priceNames) hresolve
  cases houtput
  refine ⟨hresolve, parts, hsplit, hown.mp ?_⟩
  rw [← hsplit.pieces_eq]
  rfl

/-- What a substitution with own variables evaluates to, and the text with the
values as they are. -/
def subBeside (text : String) (ownNames : List (String × Value)) : Resolved × String :=
  (stageEvaluator.resolve (.object [("Fn::Sub", .array [.string text, .object ownNames])]),
    String.ofList ((pieces .dollar text.toList).flatMap
      (Piece.verbatim (stageEvaluator.placeholderValue? (stageEvaluator.entryOutcomes ownNames)))))

/-- Evaluation changes a value that holds an escape, and it undoes an escape that
comes about at the beginning of a value or around an empty one. -/
theorem resolve_sub_alters_values :
    subBeside "$\x7bText\x7d" [("Text", .string "$\x7b!Name\x7d")] =
        (.ok (.string "$\x7bName\x7d"), "$\x7b!Name\x7d") ∧
      subBeside "$$\x7bText\x7d" [("Text", .string "\x7b!Name\x7d")] =
        (.ok (.string "$\x7bName\x7d"), "$\x7b!Name\x7d") ∧
      subBeside "$$\x7bText\x7d\x7b!Name\x7d" [("Text", .string "")] =
        (.ok (.string "$\x7bName\x7d"), "$\x7b!Name\x7d") :=
  ⟨rfl, rfl, rfl⟩

end Evaluator

end StackTemplate
