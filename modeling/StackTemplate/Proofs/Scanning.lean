import Mathlib.Data.List.Basic
import StackTemplate.Placeholder

/-!
# The split of a text into pieces

A relation says how a text splits into pieces, without a scanner: characters
that open no placeholder, placeholders, other pairs of braces, and an opening
brace that is never closed. Another one says what the pieces become under a
choice of values. Scanning a text finds its one split, and substitution fills
it.
-/

namespace StackTemplate.Placeholder

/-- A mark that is recognised and an opening brace stand at the beginning. -/
def Opens (forms : Forms) (text : List Char) : Prop :=
  ∃ form ∈ forms.recognised, ∃ rest, text = form.mark :: '\x7b' :: rest

/-- How a text splits into pieces. -/
inductive Splits (forms : Forms) : List Char → List Piece → Prop where
  /-- The end of the text. -/
  | nil : Splits forms [] []
  /-- A character that opens nothing is left alone. -/
  | char {c : Char} {text : List Char} {parts : List Piece} (hopens : ¬Opens forms (c :: text))
      (h : Splits forms text parts) : Splits forms (c :: text) (.literal [c] :: parts)
  /-- A placeholder reaches to the first closing brace. -/
  | hole {form : Form} {name text : List Char} {parts : List Piece}
      (hform : form ∈ forms.recognised) (hname : name ≠ [] ∧ name.head? ≠ some '!')
      (hclosed : '\x7d' ∉ name) (h : Splits forms text parts) :
      Splits forms (spelled form name ++ text) (.hole form name :: parts)
  /-- So does a pair of braces that is empty or escaped, which is left alone. -/
  | escape {form : Form} {name text : List Char} {parts : List Piece}
      (hform : form ∈ forms.recognised) (hname : name = [] ∨ name.head? = some '!')
      (hclosed : '\x7d' ∉ name) (h : Splits forms text parts) :
      Splits forms (spelled form name ++ text) (.literal (spelled form name) :: parts)
  /-- Braces that are never closed make the rest literal. -/
  | unclosed {form : Form} {name : List Char} (hform : form ∈ forms.recognised)
      (hclosed : '\x7d' ∉ name) :
      Splits forms (form.mark :: '\x7b' :: name) [.literal (form.mark :: '\x7b' :: name)]

variable {forms : Forms} {form : Form} {text name met : List Char} {parts : List Piece}

/-- A character that is recognised as a mark is that mark. -/
theorem Forms.eq_mark_of_ofMark? {c : Char} (h : forms.ofMark? c = some form) : c = form.mark := by
  rw [Forms.ofMark?] at h
  have hmark := List.find?_some h
  exact (of_decide_eq_true hmark).symm

/-- The marks are two different characters. -/
theorem Form.mark_injective {other : Form} (h : form.mark = other.mark) : form = other := by
  cases form <;> cases other
  · rfl
  · exact absurd h (by decide)
  · exact absurd h (by decide)
  · rfl

/-- A mark introduces its form if that is recognised. -/
theorem Forms.ofMark?_mark (hform : form ∈ forms.recognised) :
    forms.ofMark? form.mark = some form := by
  cases hfound : forms.ofMark? form.mark with
  | none => exact absurd (decide_eq_true rfl) (List.find?_eq_none.mp hfound form hform)
  | some other => rw [Form.mark_injective (eq_mark_of_ofMark? hfound)]

/-- A mark is one of two characters. -/
theorem Form.mark_cases (form : Form) : form.mark = '$' ∨ form.mark = '&' := by
  cases form
  · exact .inl rfl
  · exact .inr rfl

/-- Names are not empty and do not start with an exclamation mark. -/
theorem isName_iff : isName name = true ↔ name ≠ [] ∧ name.head? ≠ some '!' := by
  cases name with
  | nil => simp [isName]
  | cons c name => simp [isName]

/-- A pair of braces is scanned to its end. -/
theorem piecesInside_closed (hclosed : '\x7d' ∉ name) :
    piecesInside forms form met (name ++ '\x7d' :: text) =
      .ofBraces form (met.reverse ++ name) :: pieces forms text := by
  induction name generalizing met with
  | nil => rw [List.nil_append, piecesInside, if_pos rfl, List.append_nil]
  | cons c name ih =>
    have hc : c ≠ '\x7d' := fun he => hclosed (he ▸ List.mem_cons_self)
    have hrest : '\x7d' ∉ name := fun h => hclosed (List.mem_cons_of_mem _ h)
    rw [List.cons_append, piecesInside, if_neg hc, ih hrest, List.reverse_cons, List.append_assoc,
      List.singleton_append]

/-- Braces that are never closed are scanned to the end of the text. -/
theorem piecesInside_unclosed (hclosed : '\x7d' ∉ name) :
    piecesInside forms form met name =
      [.literal (form.mark :: '\x7b' :: (met.reverse ++ name))] := by
  induction name generalizing met with
  | nil => rw [piecesInside, List.append_nil]
  | cons c name ih =>
    have hc : c ≠ '\x7d' := fun he => hclosed (he ▸ List.mem_cons_self)
    have hrest : '\x7d' ∉ name := fun h => hclosed (List.mem_cons_of_mem _ h)
    rw [piecesInside, if_neg hc, ih hrest, List.reverse_cons, List.append_assoc,
      List.singleton_append]

/-- After a mark and an opening brace, a name is scanned. -/
theorem pieces_of_mark (hform : form ∈ forms.recognised) :
    pieces forms (form.mark :: '\x7b' :: text) = piecesInside forms form [] text := by
  rw [pieces.eq_def]
  dsimp only
  rw [Forms.ofMark?_mark hform]
  rfl

/-- A pair of braces is scanned as one piece. -/
theorem pieces_of_spelled (hform : form ∈ forms.recognised) (hclosed : '\x7d' ∉ name) :
    pieces forms (spelled form name ++ text) = .ofBraces form name :: pieces forms text := by
  have htext : spelled form name ++ text = form.mark :: '\x7b' :: (name ++ '\x7d' :: text) := by
    simp [spelled]
  rw [htext, pieces_of_mark hform, piecesInside_closed hclosed, List.reverse_nil, List.nil_append]

/-- A character that opens nothing is scanned alone. -/
theorem pieces_of_not_opens {c : Char} (h : ¬Opens forms (c :: text)) :
    pieces forms (c :: text) = .literal [c] :: pieces forms text := by
  rw [pieces.eq_def]
  dsimp only
  split
  · next form rest hmark =>
    have hc := Forms.eq_mark_of_ofMark? hmark
    exact absurd ⟨form, List.mem_of_find?_eq_some hmark, rest, hc ▸ rfl⟩ h
  · rfl

/-- Scanning finds any split of a text, so there is only one. -/
theorem Splits.pieces_eq (h : Splits forms text parts) : pieces forms text = parts := by
  induction h with
  | nil => rw [pieces]
  | char hopens _ ih => rw [pieces_of_not_opens hopens, ih]
  | hole hform hname hclosed _ ih =>
    rw [pieces_of_spelled hform hclosed, Piece.ofBraces, if_pos (isName_iff.mpr hname), ih]
  | escape hform hname hclosed _ ih =>
    have hnone : ¬isName _ = true := fun h => hname.elim (isName_iff.mp h).1 (isName_iff.mp h).2
    rw [pieces_of_spelled hform hclosed, Piece.ofBraces, if_neg hnone, ih]
  | unclosed hform hclosed =>
    rw [pieces_of_mark hform, piecesInside_unclosed hclosed]
    rfl

/-- A pair of braces is a placeholder or left alone. -/
theorem Splits.ofBraces (hform : form ∈ forms.recognised) (hclosed : '\x7d' ∉ name)
    (h : Splits forms text parts) :
    Splits forms (spelled form name ++ text) (.ofBraces form name :: parts) := by
  unfold Piece.ofBraces
  split
  · next hname => exact .hole hform (isName_iff.mp hname) hclosed h
  · next hname =>
    rw [isName_iff, not_and_or, not_not, not_not] at hname
    exact .escape hform hname hclosed h

/-- What is scanned is a split of the text. The scan goes on after the first
closing brace, so the induction is on the length. -/
theorem splits_pieces (forms : Forms) (text : List Char) :
    Splits forms text (pieces forms text) := by
  induction hlength : text.length using Nat.strongRecOn generalizing text with
  | _ length ih =>
    subst hlength
    cases text with
    | nil => exact .nil
    | cons c text =>
      by_cases hopens : Opens forms (c :: text)
      · obtain ⟨form, hform, rest, hrest⟩ := hopens
        by_cases hclosed : '\x7d' ∈ rest
        · obtain ⟨name, later, rfl, hname⟩ := List.eq_append_cons_of_mem hclosed
          have hspelled : c :: text = spelled form name ++ later := by
            rw [hrest]
            simp [spelled]
          have hshorter : later.length < (c :: text).length := by
            rw [hrest]
            simp only [List.length_cons, List.length_append]
            omega
          rw [hspelled, pieces_of_spelled hform hname]
          exact .ofBraces hform hname (ih _ hshorter later rfl)
        · rw [hrest, pieces_of_mark hform, piecesInside_unclosed hclosed]
          exact .unclosed hform hclosed
      · rw [pieces_of_not_opens hopens]
        exact .char hopens (ih _ (by simp) _ rfl)

/-- A split loses nothing of the text. -/
theorem Splits.flatMap_source (h : Splits forms text parts) :
    parts.flatMap Piece.source = text := by
  induction h with
  | nil => rfl
  | char _ _ ih => rw [List.flatMap_cons, ih, Piece.source, List.singleton_append]
  | hole _ _ _ _ ih => rw [List.flatMap_cons, ih, Piece.source]
  | escape _ _ _ _ ih => rw [List.flatMap_cons, ih, Piece.source]
  | unclosed _ _ => rw [List.flatMap_cons, List.flatMap_nil, List.append_nil, Piece.source]

/-- The name of a placeholder holds no closing brace. -/
theorem Splits.notMem_of_hole (h : Splits forms text parts) (hmem : .hole form name ∈ parts) :
    '\x7d' ∉ name := by
  induction h with
  | nil => cases hmem
  | char _ _ ih | escape _ _ _ _ ih =>
    rcases List.mem_cons.mp hmem with he | hlater
    · cases he
    · exact ih hlater
  | hole _ _ hclosed _ ih =>
    rcases List.mem_cons.mp hmem with he | hlater
    · cases he
      exact hclosed
    · exact ih hlater
  | unclosed _ _ => cases List.mem_singleton.mp hmem

/-- Without a closing brace there is no placeholder. -/
theorem Splits.notMem_hole (h : Splits forms text parts) (hclosed : '\x7d' ∉ text) (form : Form)
    (name : List Char) : .hole form name ∉ parts := by
  intro hmem
  refine hclosed (h.flatMap_source ▸ List.mem_flatMap.mpr ⟨_, hmem, ?_⟩)
  simp [Piece.source, spelled]

/-- The text that a placeholder is replaced by, under a choice of values. -/
def rendered? (lookup : String → Option Value) (form : Form) (name : List Char) :
    Option (List Char) :=
  (lookup (String.ofList name)).bind (rendering? form)

variable {lookup : String → Option Value}

/-- What a placeholder contributes to the text. -/
theorem Piece.fill_hole (lookup : String → Option Value) (form : Form) (name : List Char) :
    (Piece.hole form name).fill lookup =
      (rendered? lookup form name).getD (spelled form name) := by
  rw [Piece.fill, rendered?]
  cases (lookup (String.ofList name)).bind (rendering? form) <;> rfl

/-- A placeholder stays if its name has no text. -/
theorem Piece.unresolved?_hole (lookup : String → Option Value) (form : Form) (name : List Char) :
    (Piece.hole form name).unresolved? lookup =
      if rendered? lookup form name = none then some (String.ofList name) else none := by
  rw [Piece.unresolved?, rendered?]
  cases (lookup (String.ofList name)).bind (rendering? form) <;> rfl

/-- Every placeholder has a text. -/
def Rendered (lookup : String → Option Value) (parts : List Piece) : Prop :=
  ∀ form name, .hole form name ∈ parts → rendered? lookup form name ≠ none

/-- A substitution is complete if every placeholder has a text. -/
theorem isComplete_iff_rendered {text : String} :
    (substituteForms forms lookup text).isComplete = true ↔
      Rendered lookup (pieces forms text.toList) := by
  rw [Substituted.isComplete, List.isEmpty_iff, substituteForms, List.filterMap_eq_nil_iff]
  constructor
  · intro h form name hhole hnone
    have hresolved := h _ hhole
    rw [Piece.unresolved?_hole, if_pos hnone] at hresolved
    cases hresolved
  · intro h piece hpiece
    cases piece with
    | literal text => rfl
    | hole form name => rw [Piece.unresolved?_hole, if_neg (h form name hpiece)]

/-- Nothing changes if no placeholder has a text. -/
theorem substituteForms_text_eq_self {text : String}
    (h : ∀ form name, .hole form name ∈ pieces forms text.toList →
      rendered? lookup form name = none) : (substituteForms forms lookup text).text = text := by
  have hpiece : ∀ piece ∈ pieces forms text.toList, piece.fill lookup = piece.source := by
    intro piece hmem
    cases piece with
    | literal text => rfl
    | hole form name => rw [Piece.fill_hole, h form name hmem, Option.getD_none, Piece.source]
  have hsource := (splits_pieces forms text.toList).flatMap_source
  rw [substituteForms, List.flatMap_congr hpiece, hsource, String.ofList_toList]

/-- What pieces become under a choice of values: a text, and the names of the
placeholders that stay. -/
inductive Fills (lookup : String → Option Value) :
    List Piece → List Char → List String → Prop where
  /-- Nothing is left. -/
  | nil : Fills lookup [] [] []
  /-- Text is left alone. -/
  | literal {text output : List Char} {parts : List Piece} {names : List String}
      (h : Fills lookup parts output names) :
      Fills lookup (.literal text :: parts) (text ++ output) names
  /-- A placeholder whose name has a value with a text is replaced by it. -/
  | replaced {form : Form} {name text output : List Char} {value : Value} {parts : List Piece}
      {names : List String} (hvalue : lookup (String.ofList name) = some value)
      (htext : rendering? form value = some text) (h : Fills lookup parts output names) :
      Fills lookup (.hole form name :: parts) (text ++ output) names
  /-- A placeholder whose name has no value, or one without a text, stays. -/
  | kept {form : Form} {name output : List Char} {parts : List Piece} {names : List String}
      (hnone : ∀ value, lookup (String.ofList name) = some value → rendering? form value = none)
      (h : Fills lookup parts output names) :
      Fills lookup (.hole form name :: parts) (spelled form name ++ output)
        (String.ofList name :: names)

/-- Pieces are filled one by one. -/
theorem fills_flatMap (lookup : String → Option Value) (parts : List Piece) :
    Fills lookup parts (parts.flatMap (Piece.fill lookup))
      (parts.filterMap (Piece.unresolved? lookup)) := by
  induction parts with
  | nil => exact .nil
  | cons piece parts ih =>
    rw [List.flatMap_cons, List.filterMap_cons]
    cases piece with
    | literal text => exact .literal ih
    | hole form name =>
      rw [Piece.fill_hole, Piece.unresolved?_hole]
      cases hrendered : rendered? lookup form name with
      | none => exact .kept (fun value hvalue => by rwa [rendered?, hvalue] at hrendered) ih
      | some text =>
        obtain ⟨value, hvalue, htext⟩ := Option.bind_eq_some_iff.mp hrendered
        exact .replaced hvalue htext ih

/-- A text has exactly one split, which loses nothing of it. Substitution replaces
those of its placeholders whose values have a text, leaves all else alone and
reports the others in order; without values it changes nothing. -/
theorem substituteForms_fills_split (forms : Forms) (lookup : String → Option Value)
    (text : String) :
    (∃ parts, (∀ other, Splits forms text.toList other ↔ other = parts) ∧
      parts.flatMap Piece.source = text.toList ∧
      Fills lookup parts (substituteForms forms lookup text).text.toList
        (substituteForms forms lookup text).unresolved) ∧
    (substituteForms forms (fun _ => none) text).text = text := by
  have hsplit := splits_pieces forms text.toList
  refine ⟨⟨pieces forms text.toList, fun other => ⟨fun h => h.pieces_eq.symm, ?_⟩,
    hsplit.flatMap_source, ?_⟩, substituteForms_text_eq_self fun _ _ _ => rfl⟩
  · rintro rfl
    exact hsplit
  · rw [substituteForms, String.toList_ofList]
    exact fills_flatMap lookup _

end StackTemplate.Placeholder
