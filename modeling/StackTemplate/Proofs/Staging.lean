import StackTemplate.Proofs.Scanning

/-!
# Substitution in stages

Values that are not empty and hold neither marks nor opening braces do not
disturb the split of a text. So replacing some names first and the others
afterwards comes to replacing all of them at once.
-/

namespace StackTemplate.Placeholder

variable {forms : Forms} {text : List Char} {parts : List Piece}

/-- The pieces that a piece becomes when names are replaced: the text of a value
is plain, and all else stays. -/
def Piece.stage (lookup : String → Option Value) : Piece → List Piece
  | .literal text => [.literal text]
  | .hole form name =>
    match rendered? lookup form name with
    | some text => text.map fun c => .literal [c]
    | none => [.hole form name]

/-- Texts of values that do not disturb the placeholders around them: they are
not empty and hold neither marks nor opening braces. -/
def Inert (lookup : String → Option Value) : Prop :=
  ∀ form name text, rendered? lookup form name = some text →
    text ≠ [] ∧ ∀ c ∈ text, c ≠ '$' ∧ c ≠ '&' ∧ c ≠ '\x7b'

variable {first second both : String → Option Value}

/-- Plain text in front of a text does not change its split. -/
theorem Splits.append_plain {plain : List Char} (hplain : ∀ c ∈ plain, c ≠ '$' ∧ c ≠ '&')
    (h : Splits forms text parts) :
    Splits forms (plain ++ text) (plain.map (fun c => .literal [c]) ++ parts) := by
  induction plain with
  | nil => exact h
  | cons c plain ih =>
    obtain ⟨hdollar, hampersand⟩ := hplain c List.mem_cons_self
    refine .char ?_ (ih fun other hother => hplain other (List.mem_cons_of_mem _ hother))
    rintro ⟨form, -, rest, hopens⟩
    have hc : c = form.mark := List.head_eq_of_cons_eq hopens
    rcases form.mark_cases with he | he
    · exact hdollar (hc.trans he)
    · exact hampersand (hc.trans he)

/-- An opening brace that stands in front after names were replaced stood there
before. -/
theorem Splits.head?_fill (hinert : Inert first) (h : Splits forms text parts)
    (hhead : (parts.flatMap (Piece.fill first)).head? = some '\x7b') :
    text.head? = some '\x7b' := by
  have hspelled : ∀ form name rest, (spelled form name ++ rest).head? ≠ some '\x7b' := by
    intro form name rest
    cases form <;> simp [spelled, Form.mark]
  cases h with
  | nil => cases hhead
  | char _ _ => exact hhead
  | @hole form name text parts _ _ _ _ =>
    rw [List.flatMap_cons, Piece.fill_hole] at hhead
    cases hrendered : rendered? first form name with
    | none =>
      rw [hrendered] at hhead
      exact absurd hhead (hspelled form name _)
    | some value =>
      obtain ⟨hempty, hplain⟩ := hinert form name value hrendered
      rw [hrendered, Option.getD_some] at hhead
      cases value with
      | nil => exact absurd rfl hempty
      | cons c value => exact absurd (Option.some.inj hhead) (hplain c List.mem_cons_self).2.2
  | @escape form name text parts _ _ _ _ => exact absurd hhead (hspelled form name _)
  | unclosed _ _ => exact hhead

/-- Replacing names by such texts splits the text further, at the same places. -/
theorem Splits.stage (hinert : Inert first) (h : Splits forms text parts) :
    Splits forms (parts.flatMap (Piece.fill first)) (parts.flatMap (Piece.stage first)) := by
  induction h with
  | nil => exact .nil
  | @char c text parts hopens hrest ih =>
    refine .char ?_ ih
    rintro ⟨form, hform, rest, hopened⟩
    obtain ⟨hc, hhead⟩ := List.cons_eq_cons.mp hopened
    have hbefore : text.head? = some '\x7b' := hrest.head?_fill hinert (congrArg List.head? hhead)
    cases text with
    | nil => cases hbefore
    | cons brace text => exact hopens ⟨form, hform, text, by rw [hc, Option.some.inj hbefore]⟩
  | @hole form name text parts hform hname hclosed _ ih =>
    rw [List.flatMap_cons, List.flatMap_cons, Piece.fill_hole, Piece.stage]
    cases hrendered : rendered? first form name with
    | none => exact .hole hform hname hclosed ih
    | some value =>
      obtain ⟨-, hplain⟩ := hinert form name value hrendered
      exact ih.append_plain fun c hc => ⟨(hplain c hc).1, (hplain c hc).2.1⟩
  | escape hform hname hclosed _ ih => exact .escape hform hname hclosed ih
  | @unclosed form name hform hclosed =>
    have hkept : [Piece.literal (form.mark :: '\x7b' :: name)].flatMap (Piece.fill first) =
        form.mark :: '\x7b' :: name := List.append_nil _
    rw [hkept]
    exact .unclosed hform hclosed

/-- What a piece contributes in two stages is what it contributes at once. -/
theorem Piece.fill_stage {piece : Piece}
    (hboth : ∀ form name, piece = .hole form name → rendered? both form name =
      (rendered? first form name).or (rendered? second form name)) :
    (piece.stage first).flatMap (Piece.fill second) = piece.fill both ∧
      (piece.stage first).filterMap (Piece.unresolved? second) =
        (piece.unresolved? both).toList := by
  cases piece with
  | literal text => exact ⟨List.append_nil _, rfl⟩
  | hole form name =>
    rw [Piece.stage, Piece.fill_hole, Piece.unresolved?_hole, hboth form name rfl]
    cases rendered? first form name with
    | some value =>
      constructor
      · rw [List.flatMap_map]
        simp [Piece.fill]
      · simp [List.filterMap_map, Piece.unresolved?]
    | none =>
      rw [Option.none_or]
      constructor
      · simp [Piece.fill_hole]
      · rw [List.filterMap_cons, Piece.unresolved?_hole]
        cases rendered? second form name <;> rfl

/-- Replacing some names first and the others afterwards is replacing all of
them at once. -/
theorem substituteForms_substituteForms (hinert : Inert first) {text : String}
    (hboth : ∀ form name, .hole form name ∈ pieces forms text.toList →
      rendered? both form name = (rendered? first form name).or (rendered? second form name)) :
    substituteForms forms second (substituteForms forms first text).text =
      substituteForms forms both text := by
  have hpieces := ((splits_pieces forms text.toList).stage hinert).pieces_eq
  have hpiece : ∀ piece ∈ pieces forms text.toList,
      (piece.stage first).flatMap (Piece.fill second) = piece.fill both ∧
        (piece.stage first).filterMap (Piece.unresolved? second) =
          (piece.unresolved? both).toList :=
    fun piece hmem => Piece.fill_stage fun form name he => hboth form name (he ▸ hmem)
  unfold substituteForms
  dsimp only
  rw [String.toList_ofList, hpieces, List.flatMap_assoc, List.filterMap_flatMap,
    List.flatMap_congr fun piece hmem => (hpiece piece hmem).1,
    List.flatMap_congr fun piece hmem => (hpiece piece hmem).2, ← List.filterMap_eq_flatMap_toList]

/-- The values of one choice, and those of another one where it has none or null. -/
def overlay (first second : String → Option Value) (name : String) : Option Value :=
  match first name with
  | none => second name
  | some .null => second name
  | some value => some value

/-- A value that is replaced, after either mark, by a text that is not empty and
holds neither marks nor opening braces. -/
def Unobtrusive (value : Value) : Prop :=
  ∀ form, ∃ text, rendering? form value = some text ∧ text ≠ [] ∧
    ∀ c ∈ text, c ≠ '$' ∧ c ≠ '&' ∧ c ≠ '\x7b'

/-- A value other than null takes precedence. -/
theorem overlay_of_ne_null {name : String} {value : Value} (hvalue : first name = some value)
    (hne : value ≠ .null) : overlay first second name = some value := by
  rw [overlay, hvalue]
  cases value with
  | null => exact absurd rfl hne
  | _ => rfl

section Overlay

variable (hvalues : ∀ name value, first name = some value → value ≠ .null → Unobtrusive value)

include hvalues

/-- Unobtrusive values do not disturb placeholders, and null has no text. -/
theorem inert_of_unobtrusive : Inert first := by
  intro form name text hrendered
  obtain ⟨value, hvalue, htext⟩ := Option.bind_eq_some_iff.mp hrendered
  have hne : value ≠ .null := by
    rintro rfl
    cases htext
  obtain ⟨shown, hshown, hplain⟩ := hvalues _ value hvalue hne form
  have he : shown = text := Option.some.inj (hshown.symm.trans htext)
  rwa [he] at hplain

/-- A name has its text from the first choice, or else from the second one. -/
theorem rendered?_overlay (form : Form) (name : List Char) :
    rendered? (overlay first second) form name =
      (rendered? first form name).or (rendered? second form name) := by
  have hnull : rendering? form .null = none := rfl
  unfold rendered?
  cases hvalue : first (String.ofList name) with
  | none => rw [overlay, hvalue, Option.bind_none, Option.none_or]
  | some value =>
    by_cases hne : value = .null
    · subst hne
      rw [overlay, hvalue, Option.bind_some, hnull, Option.none_or]
    · obtain ⟨text, htext, -⟩ := hvalues _ value hvalue hne form
      rw [overlay_of_ne_null hvalue hne, Option.bind_some, htext, Option.some_or]

end Overlay

/-- Substitution can be staged: replacing the names of one choice, and then those
of another one in the text that came out, is replacing them all at once. -/
theorem substitute_overlay (text : String) (first second : String → Option Value)
    (hvalues : ∀ name value, first name = some value → value ≠ .null → Unobtrusive value) :
    substitute second (substitute first text).text = substitute (overlay first second) text ∧
      substituteDollar second (substituteDollar first text).text =
        substituteDollar (overlay first second) text := by
  have hstaged : ∀ forms : Forms,
      substituteForms forms second (substituteForms forms first text).text =
        substituteForms forms (overlay first second) text := fun forms =>
    substituteForms_substituteForms (inert_of_unobtrusive hvalues) fun form name _ =>
      rendered?_overlay hvalues form name
  exact ⟨hstaged .both, hstaged .dollar⟩

/-- Names that are known early, one of them as null. -/
def earlyNames (name : String) : Option Value :=
  Entries.get? name [("Bucket", .string "my-logs"), ("Port", .null)]

/-- Names that are known later. -/
def lateNames (name : String) : Option Value :=
  Entries.get? name [("Bucket", .string "other"), ("Port", .string "80")]

/-- Texts of letters and a dash are unobtrusive. -/
theorem unobtrusive_earlyNames (name : String) (value : Value)
    (hvalue : earlyNames name = some value) (hne : value ≠ .null) : Unobtrusive value := by
  have hplain : ∀ text : List Char, text ≠ [] →
      text.all (fun c => c ≠ '$' ∧ c ≠ '&' ∧ c ≠ '\x7b') = true →
        text ≠ [] ∧ ∀ c ∈ text, c ≠ '$' ∧ c ≠ '&' ∧ c ≠ '\x7b' :=
    fun text hempty hall => ⟨hempty, fun c hc => of_decide_eq_true (List.all_eq_true.mp hall c hc)⟩
  rcases List.mem_cons.mp (Entries.mem_of_get? hvalue) with he | hlater
  · cases he
    intro form
    cases form with
    | dollar => exact ⟨"my-logs".toList, rfl, hplain _ (List.cons_ne_nil _ _) rfl⟩
    | ampersand => exact ⟨"mylogs".toList, rfl, hplain _ (List.cons_ne_nil _ _) rfl⟩
  · cases List.mem_singleton.mp hlater
    exact absurd rfl hne

/-- A text with a stray mark, both marks, an escape and a name that stays. -/
def hostText : String :=
  "$$\x7bBucket\x7d:&\x7bBucket\x7d:&\x7bPort\x7d:$\x7b!Port\x7d:$\x7bHost\x7d"

theorem substitute_overlay_hostText :
    (substitute lateNames (substitute earlyNames hostText).text =
        ⟨"$my-logs:mylogs:80:$\x7b!Port\x7d:$\x7bHost\x7d", ["Host"]⟩) ∧
      substitute lateNames (substitute earlyNames hostText).text =
        substitute (overlay earlyNames lateNames) hostText ∧
      substituteDollar lateNames (substituteDollar earlyNames hostText).text =
        substituteDollar (overlay earlyNames lateNames) hostText :=
  ⟨rfl, substitute_overlay hostText earlyNames lateNames unobtrusive_earlyNames⟩

end StackTemplate.Placeholder
