import Mathlib.Data.List.Infix
import StackTemplate.Evaluator

/-!
# Texts around a delimiter

Going through a text from left to right, the pieces run up to the first
occurrence of the delimiter, then from its end up to the next one, and so on.
Occurrences that overlap one already met do not count. This describes the pieces
completely, and joining them with the delimiter gives the text back. The empty
delimiter occurs everywhere and sets all characters apart.
-/

namespace StackTemplate

namespace Text

variable {delimiter piece text : List Char} {pieces : List (List Char)}

/-- A piece runs up to the delimiter: if the delimiter follows the piece, none
of its occurrences begins inside the piece. -/
def RunsUpTo (delimiter piece : List Char) : Prop :=
  ∀ rest, rest <:+ piece → rest ≠ [] → ¬delimiter <+: rest ++ delimiter

/-- The pieces of a text between the occurrences of a delimiter that are met
from left to right. -/
inductive Cuts (delimiter : List Char) : List Char → List (List Char) → Prop where
  /-- A text without the delimiter is one piece. -/
  | whole {text : List Char} (habsent : ¬delimiter <:+: text) : Cuts delimiter text [text]
  /-- The first piece runs up to the first occurrence, and what follows the
  occurrence is cut again. -/
  | next {piece rest : List Char} {pieces : List (List Char)} (hpiece : RunsUpTo delimiter piece)
      (hrest : Cuts delimiter rest pieces) : Cuts delimiter (piece ++ delimiter ++ rest)
        (piece :: pieces)

/-- An empty piece runs up to any delimiter. -/
theorem runsUpTo_nil (delimiter : List Char) : RunsUpTo delimiter [] :=
  fun _ hsuffix hne => absurd (List.suffix_nil.mp hsuffix) hne

/-- A piece begins one character earlier if the delimiter does not. -/
theorem RunsUpTo.cons {c : Char} (h : RunsUpTo delimiter piece)
    (hstart : ¬delimiter <+: c :: piece ++ delimiter) : RunsUpTo delimiter (c :: piece) := by
  intro rest hsuffix hne
  rcases List.suffix_cons_iff.mp hsuffix with rfl | hinside
  · exact hstart
  · exact h rest hinside hne

/-- The end of a piece runs up to the delimiter too. -/
theorem RunsUpTo.tail {c : Char} (h : RunsUpTo delimiter (c :: piece)) :
    RunsUpTo delimiter piece :=
  fun rest hsuffix hne => h rest (hsuffix.trans (List.suffix_cons c piece)) hne

/-- Where a piece runs up to a delimiter, the delimiter does not begin at its
first character, whatever follows. -/
theorem RunsUpTo.not_isPrefix {c : Char} (h : RunsUpTo delimiter (c :: piece)) (rest : List Char) :
    ¬delimiter <+: c :: piece ++ delimiter ++ rest := by
  intro hstart
  refine h (c :: piece) List.suffix_rfl (List.cons_ne_nil c piece) ?_
  refine List.prefix_of_prefix_length_le hstart (List.prefix_append _ rest) ?_
  rw [List.length_append]
  exact Nat.le_add_left _ _

/-- A delimiter that is not empty does not occur in a piece that runs up to it. -/
theorem RunsUpTo.not_isInfix (h : RunsUpTo delimiter piece) (hdelimiter : delimiter ≠ []) :
    ¬delimiter <:+: piece := by
  rintro ⟨before, after, rfl⟩
  refine h (delimiter ++ after) ⟨before, by rw [List.append_assoc]⟩ ?_ ?_
  · exact List.append_ne_nil_of_left_ne_nil hdelimiter after
  · exact ⟨after ++ delimiter, by rw [List.append_assoc]⟩

namespace Cuts

/-- There is always a piece. -/
theorem ne_nil (h : Cuts delimiter text pieces) : pieces ≠ [] := by
  cases h with
  | whole => exact List.cons_ne_nil _ _
  | next => exact List.cons_ne_nil _ _

/-- No piece holds a delimiter that is not empty. -/
theorem not_isInfix (h : Cuts delimiter text pieces) (hdelimiter : delimiter ≠ [])
    (hpiece : piece ∈ pieces) : ¬delimiter <:+: piece := by
  induction h with
  | whole habsent =>
    rw [List.mem_singleton.mp hpiece]
    exact habsent
  | next hruns _ ih =>
    rcases List.mem_cons.mp hpiece with rfl | hlater
    · exact hruns.not_isInfix hdelimiter
    · exact ih hlater

/-- The first piece takes a character in front of the text at which no delimiter
begins. -/
theorem extend {c : Char} (h : Cuts delimiter text pieces) (hstart : ¬delimiter <+: c :: text) :
    Cuts delimiter (c :: text) (extendFirst c pieces) := by
  cases h with
  | whole habsent =>
    refine .whole fun hoccurs => ?_
    rcases List.infix_cons_iff.mp hoccurs with hhere | hlater
    · exact hstart hhere
    · exact habsent hlater
  | @next piece rest pieces hpiece hrest =>
    have hbefore : ¬delimiter <+: c :: piece ++ delimiter :=
      fun hhere => hstart (hhere.trans (List.prefix_append _ rest))
    exact .next (hpiece.cons hbefore) hrest

end Cuts

/-- After an occurrence of the delimiter its characters are passed over. -/
theorem piecesAfter_skip (delimiter : List Char) (skip : Nat) (text : List Char) :
    piecesAfter delimiter skip text = piecesAfter delimiter 0 (text.drop skip) := by
  induction text generalizing skip with
  | nil => rw [List.drop_nil, piecesAfter, piecesAfter]
  | cons c cs ih =>
    cases skip with
    | zero => rfl
    | succ skip => rw [piecesAfter, List.drop_succ_cons, ih]

/-- An occurrence at the beginning leaves an empty piece in front of it. -/
theorem piecesAfter_append (hdelimiter : delimiter ≠ []) (rest : List Char) :
    piecesAfter delimiter 0 (delimiter ++ rest) = [] :: piecesAfter delimiter 0 rest := by
  cases delimiter with
  | nil => exact absurd rfl hdelimiter
  | cons first others =>
    have hstart : (first :: others).isPrefixOf (first :: (others ++ rest)) = true :=
      List.isPrefixOf_iff_prefix.mpr ⟨rest, rfl⟩
    rw [List.cons_append, piecesAfter, if_pos hstart, piecesAfter_skip, List.length_cons,
      Nat.add_sub_cancel, List.drop_left]

/-- A character at which no delimiter begins belongs to the first piece. -/
theorem piecesAfter_cons {c : Char} (hstart : ¬delimiter <+: c :: text) :
    piecesAfter delimiter 0 (c :: text) = extendFirst c (piecesAfter delimiter 0 text) := by
  rw [piecesAfter, if_neg (mt List.isPrefixOf_iff_prefix.mp hstart)]

/-- The pieces found are those that the delimiter cuts off. What follows an
occurrence is shorter than the text but not its tail, so the induction is on the
length. -/
theorem cuts_piecesAfter (hdelimiter : delimiter ≠ []) (text : List Char) :
    Cuts delimiter text (piecesAfter delimiter 0 text) := by
  induction hlength : text.length using Nat.strongRecOn generalizing text with
  | ind length ih =>
    subst hlength
    cases text with
    | nil =>
      rw [piecesAfter]
      exact .whole (mt List.infix_nil.mp hdelimiter)
    | cons c cs =>
      by_cases hstart : delimiter <+: c :: cs
      · obtain ⟨rest, hrest⟩ := hstart
        have hshorter : rest.length < (c :: cs).length := by
          have hpositive := List.length_pos_of_ne_nil hdelimiter
          rw [← hrest, List.length_append]
          omega
        rw [← hrest, piecesAfter_append hdelimiter]
        exact .next (runsUpTo_nil delimiter) (ih _ hshorter rest rfl)
      · rw [piecesAfter_cons hstart]
        exact (ih _ (Nat.lt_succ_self _) cs rfl).extend hstart

/-- A text without the delimiter is found as one piece. -/
theorem piecesAfter_of_not_isInfix (habsent : ¬delimiter <:+: text) :
    piecesAfter delimiter 0 text = [text] := by
  induction text with
  | nil => rw [piecesAfter]
  | cons c cs ih =>
    have hlater : ¬delimiter <:+: cs := fun h => habsent (List.infix_cons h)
    rw [piecesAfter_cons fun h => habsent h.isInfix, ih hlater, extendFirst]

/-- A piece that runs up to the delimiter is found first. -/
theorem piecesAfter_of_runsUpTo (hdelimiter : delimiter ≠ []) (h : RunsUpTo delimiter piece)
    (rest : List Char) :
    piecesAfter delimiter 0 (piece ++ delimiter ++ rest) =
      piece :: piecesAfter delimiter 0 rest := by
  induction piece with
  | nil => exact piecesAfter_append hdelimiter rest
  | cons c piece ih =>
    have hstart := h.not_isPrefix rest
    rw [List.cons_append, List.cons_append] at hstart ⊢
    rw [piecesAfter_cons hstart, ih h.tail, extendFirst]

/-- There is one way to cut a text at a delimiter that is not empty, and it is
the one found. -/
theorem piecesAfter_eq_iff_cuts (hdelimiter : delimiter ≠ []) :
    piecesAfter delimiter 0 text = pieces ↔ Cuts delimiter text pieces := by
  refine ⟨fun h => h ▸ cuts_piecesAfter hdelimiter text, fun h => ?_⟩
  induction h with
  | whole habsent => exact piecesAfter_of_not_isInfix habsent
  | next hpiece _ ih => rw [piecesAfter_of_runsUpTo hdelimiter hpiece, ih]

/-- Joining two pieces or more begins with the first and a delimiter. -/
theorem joinChars_cons (delimiter piece : List Char) (h : pieces ≠ []) :
    joinChars delimiter (piece :: pieces) = piece ++ delimiter ++ joinChars delimiter pieces := by
  rw [joinChars]
  exact h

/-- Joining the pieces that a delimiter cuts off gives the text back. -/
theorem Cuts.joinChars_eq (h : Cuts delimiter text pieces) : joinChars delimiter pieces = text := by
  induction h with
  | whole => rw [joinChars]
  | next _ hrest ih => rw [joinChars_cons _ _ hrest.ne_nil, ih]

/-- With nothing between them, pieces are put together. -/
theorem joinChars_nil (pieces : List (List Char)) : joinChars [] pieces = pieces.flatten := by
  induction pieces with
  | nil => rfl
  | cons piece pieces ih =>
    cases pieces with
    | nil => rw [joinChars, List.flatten_singleton]
    | cons second pieces =>
      rw [joinChars_cons _ _ (List.cons_ne_nil _ _), ih, List.append_nil, ← List.flatten_cons]

/-- The pieces of a text around a delimiter. -/
structure PiecesAround (delimiter text : String) (pieces : List String) : Prop where
  /-- The empty delimiter stands before every character and at the end. -/
  apart : delimiter = "" → pieces = "" :: text.toList.map String.singleton ++ [""]
  /-- Any other delimiter is met from left to right. -/
  cut : delimiter ≠ "" → Cuts delimiter.toList text.toList (pieces.map String.toList)

/-- Splitting finds the pieces. -/
theorem piecesAround_split (delimiter text : String) :
    PiecesAround delimiter text (split delimiter text) where
  apart := by
    rintro rfl
    simp [split, splitChars, Function.comp_def]
  cut h := by
    have hdelimiter : delimiter.toList ≠ [] := mt String.toList_eq_nil_iff.mp h
    have hpieces : (split delimiter text).map String.toList =
        piecesAfter delimiter.toList 0 text.toList := by
      simp [split, splitChars, hdelimiter, Function.comp_def]
    rw [hpieces]
    exact cuts_piecesAfter hdelimiter text.toList

/-- Joining the pieces of a text around a delimiter gives the text back. -/
theorem PiecesAround.join_eq {delimiter text : String} {pieces : List String}
    (h : PiecesAround delimiter text pieces) : join delimiter pieces = text := by
  by_cases hdelimiter : delimiter = ""
  · have hletters : (text.toList.map fun c => [c]).flatten = text.toList := by
      rw [← List.flatMap_def, List.flatMap_singleton']
    rw [h.apart hdelimiter, hdelimiter, join, String.toList_empty, joinChars_nil]
    simp [Function.comp_def, hletters]
  · rw [join, (h.cut hdelimiter).joinChars_eq, String.ofList_toList]

end Text

namespace Evaluator

/-- Texts are joined whatever they are. -/
theorem joinItems_texts (delimiter : String) (texts : List String) :
    joinItems (some delimiter) (.ok (.array (texts.map .string))) =
      .ok (.string (Text.join delimiter texts)) := by
  have hscalars : (texts.map Value.string).mapM Value.scalarText? = some texts := by
    induction texts with
    | nil => rfl
    | cons text texts ih => simp [List.mapM_cons, ih, Value.scalarText?]
  simp only [joinItems, hscalars]

/-- Joining restores what splitting took apart. Whatever names are in scope, a
split of any text at any delimiter resolves to the pieces of the text around the
delimiter, and joining that split with the same delimiter resolves to the text. -/
theorem resolve_join_split (e : Evaluator) (delimiter text : String) :
    (∃ pieces, Text.PiecesAround delimiter text pieces ∧
      e.resolve (.object [("Fn::Split", .array [.string delimiter, .string text])]) =
        .ok (.array (pieces.map .string))) ∧
    e.resolve (.object [("Fn::Join", .array [.string delimiter,
        .object [("Fn::Split", .array [.string delimiter, .string text])]])]) =
      .ok (.string text) := by
  have hpieces := Text.piecesAround_split delimiter text
  have hsplit : e.resolve (.object [("Fn::Split", .array [.string delimiter, .string text])]) =
      .ok (.array ((Text.split delimiter text).map .string)) := rfl
  have hjoin : ∀ items : Value,
      e.resolve (.object [("Fn::Join", .array [.string delimiter, items])]) =
        joinItems (some delimiter) (e.resolve items) := fun _ => rfl
  refine ⟨⟨_, hpieces, hsplit⟩, ?_⟩
  rw [hjoin, hsplit, joinItems_texts, hpieces.join_eq]

end Evaluator

end StackTemplate
