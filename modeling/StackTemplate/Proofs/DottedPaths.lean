import StackTemplate.Proofs.Delimiters
import StackTemplate.Value.Path

/-!
# Dotted paths

Many texts denote one path: empty segments do not count, and a position may have
leading zeros or a plus sign. Written again, a path has one text. Reading that
text gives the path back exactly if its keys cannot be mistaken, neither for
nothing nor for several segments nor for a position, and its positions fit a
word. Every path that was read is of this kind.
-/

namespace StackTemplate

namespace Text

/-- The digits of a number are read as the number. -/
theorem digits?_natural (n : Nat) : digits? (natural n) = some n := by
  have hdigits : (natural n).all Char.isDigit = true :=
    List.all_eq_true.mpr fun _ => isDigit_of_mem_natural
  rw [digits?, if_pos ⟨Nat.toDigits_ne_nil, hdigits⟩, natural,
    Nat.ofDigitChars_toDigits (by decide) (by decide)]

/-- No plus sign stands in front of the digits of a number. -/
theorem dropPlus_natural (n : Nat) : dropPlus (natural n) = natural n := by
  rw [dropPlus.eq_def]
  split
  · next rest hdigits =>
    have hplus : '+' ∈ natural n := hdigits ▸ List.mem_cons_self
    cases isDigit_of_mem_natural hplus
  · rfl

/-- A number that fits a word is read back. -/
theorem natural?_natural {n : Nat} (h : n ≤ wordMax) :
    natural? (String.ofList (natural n)) = some n := by
  rw [natural?, String.toList_ofList, dropPlus_natural, digits?_natural]
  exact Option.filter_some_pos (decide_eq_true h)

/-- A number that is read fits a word. -/
theorem le_wordMax_of_natural? {text : String} {n : Nat} (h : natural? text = some n) :
    n ≤ wordMax :=
  of_decide_eq_true (Option.filter_eq_some_iff.mp h).2

/-- Pieces without a character are those between its occurrences, once they are
joined with it. -/
theorem cuts_joinChars {c : Char} {pieces : List (List Char)} (hne : pieces ≠ [])
    (h : ∀ piece ∈ pieces, c ∉ piece) : Cuts [c] (joinChars [c] pieces) pieces := by
  induction pieces with
  | nil => exact absurd rfl hne
  | cons piece pieces ih =>
    obtain ⟨hpiece, hpieces⟩ := List.forall_mem_cons.mp h
    by_cases hlast : pieces = []
    · subst hlast
      rw [joinChars]
      exact .whole (mt (List.singleton_infix_iff c piece).mp hpiece)
    · rw [joinChars_cons _ _ hlast]
      refine .next (fun rest hsuffix hrest hstart => ?_) (ih hlast hpieces)
      obtain ⟨first, others, rfl⟩ := List.exists_cons_of_ne_nil hrest
      obtain rfl : c = first := (List.cons_prefix_cons.mp hstart).1
      exact hpiece (hsuffix.subset List.mem_cons_self)

/-- Texts without points are read back from between points. -/
theorem split_join_points {texts : List String} (hne : texts ≠ [])
    (h : ∀ text ∈ texts, '.' ∉ text.toList) : split "." (join "." texts) = texts := by
  have hcuts : Cuts ['.'] (joinChars ['.'] (texts.map String.toList))
      (texts.map String.toList) :=
    cuts_joinChars (mt List.map_eq_nil_iff.mp hne) (List.forall_mem_map.mpr h)
  have hjoined : (join "." texts).toList = joinChars ['.'] (texts.map String.toList) :=
    String.toList_ofList
  have hpieces : splitChars ['.'] (join "." texts).toList = texts.map String.toList := by
    rw [hjoined]
    exact (piecesAfter_eq_iff_cuts (List.cons_ne_nil _ _)).mpr hcuts
  calc split "." (join "." texts)
      = (splitChars ['.'] (join "." texts).toList).map String.ofList := rfl
    _ = (texts.map String.toList).map String.ofList := by rw [hpieces]
    _ = texts := by simp [Function.comp_def]

/-- A piece between points holds none. -/
theorem point_notMem_of_mem_split {text piece : String} (h : piece ∈ split "." text) :
    '.' ∉ piece.toList := by
  have hcuts := (piecesAround_split "." text).cut (by decide)
  have habsent := hcuts.not_isInfix (List.cons_ne_nil _ _) (List.mem_map_of_mem h)
  exact mt (List.singleton_infix_iff '.' piece.toList).mpr habsent

end Text

namespace Segment

/-- The text of a segment denotes it and nothing else: a key is not empty, holds
no point and does not read as a number, and a position fits a word. -/
def Plain : Segment → Prop
  | .key name => name ≠ "" ∧ '.' ∉ name.toList ∧ Text.natural? name = none
  | .index position => position ≤ Text.wordMax

instance : DecidablePred Plain
  | .key name =>
    inferInstanceAs (Decidable (name ≠ "" ∧ '.' ∉ name.toList ∧ Text.natural? name = none))
  | .index position => inferInstanceAs (Decidable (position ≤ Text.wordMax))

variable {segment : Segment}

/-- The text of a plain segment is read back. -/
theorem Plain.ofText_text (h : segment.Plain) : ofText segment.text = segment := by
  cases segment with
  | key name =>
    obtain ⟨-, -, hname⟩ := h
    rw [text, ofText, hname]
  | index position => rw [text, ofText, Text.natural?_natural h]

/-- The text of a plain segment is not empty. -/
theorem Plain.text_ne_empty (h : segment.Plain) : segment.text ≠ "" := by
  cases segment with
  | key name => exact h.1
  | index position =>
    refine mt String.toList_eq_nil_iff.mpr ?_
    rw [text, String.toList_ofList]
    exact Nat.toDigits_ne_nil

/-- The text of a plain segment holds no point. -/
theorem Plain.point_notMem_text (h : segment.Plain) : '.' ∉ segment.text.toList := by
  cases segment with
  | key name => exact h.2.1
  | index position =>
    rw [text, String.toList_ofList]
    intro hpoint
    cases Text.isDigit_of_mem_natural hpoint

/-- A text without points is read as a plain segment, if there is any. -/
theorem plain_ofText {text : String} (hne : text ≠ "") (hpoint : '.' ∉ text.toList) :
    (ofText text).Plain := by
  rw [ofText]
  cases hnumber : Text.natural? text with
  | some position => exact Text.le_wordMax_of_natural? hnumber
  | none => exact ⟨hne, hpoint, hnumber⟩

end Segment

namespace Path

variable {path : Path}

/-- Whatever text a path is read from, its segments are plain. -/
theorem plain_of_mem_ofText {text : String} {segment : Segment} (h : segment ∈ ofText text) :
    segment.Plain := by
  obtain ⟨piece, hpiece, rfl⟩ := List.mem_map.mp h
  obtain ⟨hsplit, hne⟩ := List.mem_filter.mp hpiece
  exact Segment.plain_ofText (of_decide_eq_true hne) (Text.point_notMem_of_mem_split hsplit)

/-- A path of plain segments is read back from its text. -/
theorem ofText_text_of_plain (h : ∀ segment ∈ path, segment.Plain) :
    ofText (path.text ".") = path := by
  by_cases hempty : path = []
  · subst hempty
    rfl
  · have hsplit : Text.split "." (path.text ".") = path.map Segment.text :=
      Text.split_join_points (mt List.map_eq_nil_iff.mp hempty)
        (List.forall_mem_map.mpr fun segment hmem => (h segment hmem).point_notMem_text)
    have hkept : (path.map Segment.text).filter (· ≠ "") = path.map Segment.text :=
      List.filter_eq_self.mpr (List.forall_mem_map.mpr fun segment hmem =>
        decide_eq_true (h segment hmem).text_ne_empty)
    rw [ofText, hsplit, hkept, List.map_map]
    exact (List.map_congr_left fun segment hmem => (h segment hmem).ofText_text).trans
      (List.map_id path)

/-- Dotted paths have a stable normal form. Writing the path that a text denotes
and reading it again gives the same path. A path is read back from its own text
exactly if no key is empty, holds a point or reads as a number, and every position
is one that can be read. -/
theorem ofText_text_stable :
    (∀ text : String, ofText ((ofText text).text ".") = ofText text) ∧
    ∀ path : Path, ofText (path.text ".") = path ↔ ∀ segment ∈ path, segment.Plain := by
  refine ⟨fun text => ofText_text_of_plain fun _ => plain_of_mem_ofText, fun path => ?_⟩
  refine ⟨fun hread segment hmem => ?_, ofText_text_of_plain⟩
  rw [← hread] at hmem
  exact plain_of_mem_ofText hmem

/-- A path at the limits: the largest position, the number after it, and texts
that are almost numbers. -/
def limitPath : Path :=
  [.key "Resources", .index 18446744073709551615, .key "18446744073709551616", .key "+",
    .key "-1", .index 0, .key "1e3"]

theorem ofText_text_limitPath :
    (∀ segment ∈ limitPath, segment.Plain) ∧ ofText (limitPath.text ".") = limitPath ∧
      ofText ((ofText "+007..Tags.").text ".") = ofText "+007..Tags." := by
  have hplain : ∀ segment ∈ limitPath, segment.Plain := by decide
  exact ⟨hplain, (ofText_text_stable.2 limitPath).mpr hplain,
    ofText_text_stable.1 "+007..Tags."⟩

end Path

end StackTemplate
