import Mathlib.Data.List.TakeDrop
import StackTemplate.Json.Printer
import StackTemplate.Proofs.Parts
import StackTemplate.Template

/-!
# Reading what was written

Whatever follows it, the compact form of a document is read as one tree, which
spells its whole numbers without point and exponent. The tree is as deep as the
document and denotes it, order of keys included. So a document without decimals
that is not nested too deeply is read back from its compact form, and documents
with the same compact form are the same.
-/

namespace StackTemplate

/-- No part of a value is a decimal. -/
def Value.DecimalFree (value : Value) : Prop := ∀ number, Value.decimal number ∉ value.parts

/-- Parts of a value without decimals have none. -/
theorem Value.DecimalFree.part {part value : Value} (h : value.DecimalFree)
    (hpart : part ∈ value.parts) : part.DecimalFree :=
  fun number hnumber => h number (Value.parts_subset hpart hnumber)

namespace Json

section Numbers

/-- A text in front of which a number ends. -/
def EndsNumber (rest : List Char) : Prop :=
  ∀ c, rest.head? = some c → c.isDigit = false ∧ c ≠ '.' ∧ c ≠ 'e' ∧ c ≠ 'E'

/-- The spelling of a whole number. -/
def Number.ofInt (number : Int) : Number :=
  ⟨decide (number < 0), Text.natural number.natAbs, [], none⟩

variable {rest : List Char}

/-- All digits in front of a text that starts with none are taken. -/
theorem takeDigits_append {digits : List Char} (hdigits : ∀ c ∈ digits, c.isDigit = true)
    (hrest : EndsNumber rest) : takeDigits (digits ++ rest) = (digits, rest) := by
  have hstop : rest.takeWhile Char.isDigit = [] ∧ rest.dropWhile Char.isDigit = rest := by
    cases rest with
    | nil => exact ⟨rfl, rfl⟩
    | cons c rest =>
      have hc := (hrest c rfl).1
      simp [hc]
  rw [takeDigits, List.span_eq_takeWhile_dropWhile, List.takeWhile_append_of_pos hdigits,
    List.dropWhile_append_of_pos hdigits, hstop.1, hstop.2, List.append_nil]

/-- The digits of a natural number are its integral part. -/
theorem integralPart?_natural (n : Nat) (hrest : EndsNumber rest) :
    integralPart? (Text.natural n ++ rest) = some (Text.natural n, rest) := by
  by_cases hzero : n = 0
  · subst hzero
    rfl
  · have htake := takeDigits_append (fun c => Text.isDigit_of_mem_natural (n := n)) hrest
    have hlead := Text.head?_natural_ne_zero hzero
    cases hcs : Text.natural n with
    | nil => exact absurd hcs Nat.toDigits_ne_nil
    | cons first others =>
      rw [hcs] at htake hlead
      rw [List.cons_append] at htake ⊢
      rw [integralPart?.eq_def]
      split
      · next heq =>
        cases heq
        exact absurd rfl hlead
      · rw [htake]

/-- Without a point there is no fraction. -/
theorem fractionPart?_of_endsNumber (hrest : EndsNumber rest) :
    fractionPart? rest = some ([], rest) := by
  rw [fractionPart?.eq_def]
  split
  · exact absurd rfl (hrest '.' rfl).2.1
  · rfl

/-- Without a mark there is no exponent. -/
theorem exponentPart?_of_endsNumber (hrest : EndsNumber rest) :
    exponentPart? rest = some (none, rest) := by
  rw [exponentPart?.eq_def]
  split
  · next c rest =>
    have hc := (hrest c rfl).2.2
    rw [if_neg (not_or.mpr hc)]
  · rfl

/-- A whole number is read after its sign. -/
theorem unsigned?_natural (negative : Bool) (n : Nat) (hrest : EndsNumber rest) :
    unsigned? negative (Text.natural n ++ rest) =
      some (.number ⟨negative, Text.natural n, [], none⟩, rest) := by
  rw [unsigned?, integralPart?_natural n hrest]
  simp only [Option.bind_eq_bind, Option.bind_some, fractionPart?_of_endsNumber hrest,
    exponentPart?_of_endsNumber hrest, pure]

/-- A whole number is read with its sign. -/
theorem number?_integer (number : Int) (hrest : EndsNumber rest) :
    number? (Text.integer number ++ rest) = some (.number (.ofInt number), rest) := by
  cases number with
  | negSucc n =>
    have hsign : decide (Int.negSucc n < 0) = true := decide_eq_true (Int.negSucc_lt_zero n)
    rw [Number.ofInt, hsign, Text.integer, Int.natAbs_negSucc]
    exact unsigned?_natural true (n + 1) hrest
  | ofNat n =>
    have hread := unsigned?_natural false n hrest
    have hsign : decide (Int.ofNat n < 0) = false := by simp
    rw [Number.ofInt, hsign, Text.integer, Int.natAbs_ofNat', ← hread]
    cases hcs : Text.natural n with
    | nil => exact absurd hcs Nat.toDigits_ne_nil
    | cons first others =>
      rw [List.cons_append, number?.eq_def]
      split
      · next heq =>
        cases heq
        have hminus : '-' ∈ Text.natural n := hcs ▸ List.mem_cons_self
        cases Text.isDigit_of_mem_natural hminus
      · rfl

/-- A whole number of 64 bits is denoted by its spelling. -/
theorem toValue?_ofInt (number : Int64) :
    (Number.ofInt number.toInt).toValue? = some (.integer number) := by
  have hlow := number.le_toInt
  have hhigh := number.toInt_lt
  have hback : Int64.ofInt number.toInt = number := Int64.ofInt_toInt number
  have hmagnitude : (Number.ofInt number.toInt).integralValue = number.toInt.natAbs :=
    Nat.ofDigitChars_toDigits (by decide) (by decide)
  have hwhole : (Number.ofInt number.toInt).isWhole = true := rfl
  have hread : (Number.ofInt number.toInt).toInt64? = some number := by
    rw [Number.toInt64?, hmagnitude, hwhole]
    dsimp only [Number.ofInt]
    by_cases hnegative : number.toInt < 0
    · have hmirror : -(number.toInt.natAbs : Int) = number.toInt := by omega
      have hrange : 0 < number.toInt.natAbs ∧ number.toInt.natAbs ≤ 0x8000000000000000 := by omega
      simp only [Bool.not_true, Bool.false_eq_true, hnegative, decide_true, if_true, if_false,
        hrange.1, hrange.2, and_self, hmirror, hback]
    · have hsame : (number.toInt.natAbs : Int) = number.toInt := by omega
      have hrange : number.toInt.natAbs < 0x8000000000000000 := by omega
      simp only [Bool.not_true, Bool.false_eq_true, hnegative, decide_false, if_true, if_false,
        hrange, hsame, hback]
  rw [Number.toValue?, hread]

end Numbers

section Texts

/-- A control character that has no letter of its own is read from the two
digits it is escaped by. -/
theorem hexUnit?_of_lt {n : Nat} (h : n < 0x20) :
    hexUnit? '0' '0' (Nat.digitChar (n / 16)) (Nat.digitChar (n % 16)) = some n := by
  have hall : ∀ n < 0x20,
      hexUnit? '0' '0' (Nat.digitChar (n / 16)) (Nat.digitChar (n % 16)) = some n := by decide
  exact hall n h

/-- A character that needs no escape is read as itself. -/
theorem pieces?_of_plain {c : Char} (hquote : c ≠ '"') (hslash : c ≠ '\\')
    (hcontrol : ¬c.toNat < 0x20) (rest : List Char) :
    pieces? (c :: rest) = consPiece (.whole c) (pieces? rest) := by
  have hplain : ¬(c.toNat < 0x20 ∨ c = '\\') := not_or.mpr ⟨hcontrol, hslash⟩
  rw [pieces?.eq_def]
  split
  · next heq => cases heq
  · next heq =>
    cases heq
    exact absurd rfl hquote
  · next heq =>
    cases heq
    exact absurd rfl hslash
  · next heq =>
    cases heq
    exact absurd rfl hslash
  · next heq =>
    cases heq
    rw [if_neg hplain]

/-- A written character is read as itself. -/
theorem pieces?_writeChar (c : Char) (rest : List Char) :
    pieces? (writeChar c rest) = consPiece (.whole c) (pieces? rest) := by
  unfold writeChar
  split
  · next h => subst h; rfl
  split
  · next h => subst h; rfl
  split
  · next h => subst h; rfl
  split
  · next h => subst h; rfl
  split
  · next h => subst h; rfl
  split
  · next h => subst h; rfl
  split
  · next h => subst h; rfl
  split
  · next hcontrol =>
    have hpiece : Piece.ofUnit c.toNat = .whole c := by
      rw [Piece.ofUnit, if_pos (.inl (by omega)), Char.ofNat_toNat]
    rw [pieces?, hexUnit?_of_lt hcontrol]
    dsimp only
    rw [hpiece]
  · next hquote hslash _ _ _ _ _ hcontrol =>
    exact pieces?_of_plain hquote hslash hcontrol rest

/-- A written text is read up to its closing quote. -/
theorem pieces?_foldr_writeChar (text rest : List Char) :
    pieces? (text.foldr writeChar ('"' :: rest)) = some (text.map .whole, rest) := by
  induction text with
  | nil => rfl
  | cons c text ih =>
    rw [List.foldr_cons, pieces?_writeChar, ih]
    rfl

/-- Pieces that are characters spell them. -/
theorem joinPieces?_map_whole (text : List Char) : joinPieces? (text.map .whole) = some text := by
  induction text with
  | nil => rfl
  | cons c text ih =>
    rw [List.map_cons, joinPieces?, ih]
    rfl

/-- A text is read from what is written after its opening quote. -/
theorem stringTail_foldr_writeChar (text : String) (rest : List Char) :
    stringTail (text.toList.foldr writeChar ('"' :: rest)) = some (some text, rest) := by
  rw [stringTail, pieces?_foldr_writeChar, Option.map_some]
  dsimp only
  rw [joinPieces?_map_whole, Option.map_some, String.ofList_toList]

/-- A key is read with its colon. -/
theorem key?_writeString (key : String) (rest : List Char) :
    key? (writeString key (':' :: rest)) = some (some key, rest) := by
  have hquote : skipSpace (writeString key (':' :: rest)) = writeString key (':' :: rest) := rfl
  have hcolon : skipSpace (':' :: rest) = ':' :: rest := rfl
  rw [key?, hquote, writeString]
  simp only [stringTail_foldr_writeChar, hcolon]

end Texts

section Trees

mutual

/-- The tree that a document is written as. Decimals are left out. -/
def Tree.ofValue : Value → Tree
  | .null => .null
  | .boolean truth => .boolean truth
  | .integer whole => .number (.ofInt whole.toInt)
  | .decimal _ => .null
  | .string text => .string (some text)
  | .array items => .array (Tree.ofItems items)
  | .object entries => .object (Tree.ofEntries entries)

/-- The trees of items. -/
def Tree.ofItems : List Value → List Tree
  | [] => []
  | item :: items => Tree.ofValue item :: Tree.ofItems items

/-- The trees of entries, under their keys. -/
def Tree.ofEntries : List (String × Value) → List (Option String × Tree)
  | [] => []
  | (key, value) :: entries => (some key, Tree.ofValue value) :: Tree.ofEntries entries

end

/-- How a whole number starts. -/
def StartsNumber (c : Char) : Prop := c = '-' ∨ c.isDigit = true

/-- A number starts with no other character. -/
theorem StartsNumber.ne {c d : Char} (h : StartsNumber c) (hminus : d ≠ '-')
    (hdigit : d.isDigit = false) : c ≠ d := by
  rintro rfl
  rcases h with h | h
  · exact hminus h
  · rw [hdigit] at h
    cases h

/-- A whole number starts with its sign or a digit. -/
theorem exists_integer_eq_cons (number : Int) :
    ∃ c cs, Text.integer number = c :: cs ∧ StartsNumber c := by
  cases number with
  | negSucc n => exact ⟨'-', _, rfl, .inl rfl⟩
  | ofNat n =>
    cases hcs : Text.natural n with
    | nil => exact absurd hcs Nat.toDigits_ne_nil
    | cons c cs =>
      have hmem : c ∈ Text.natural n := hcs ▸ List.mem_cons_self
      exact ⟨c, cs, hcs, .inr (Text.isDigit_of_mem_natural hmem)⟩

/-- No blank stands before a number. -/
theorem StartsNumber.isSpace_eq_false {c : Char} (h : StartsNumber c) : isSpace c = false := by
  have hblank := h.ne (d := ' ') (by decide) rfl
  have hline := h.ne (d := '\n') (by decide) rfl
  have htab := h.ne (d := '\t') (by decide) rfl
  have hreturn := h.ne (d := '\r') (by decide) rfl
  simp [isSpace, hblank, hline, htab, hreturn]

/-- A whole number is read as a scalar. -/
theorem tree?_integer (number : Int) {rest : List Char} (hrest : EndsNumber rest) (fuel : Nat) :
    tree? (fuel + 1) (Text.integer number ++ rest) = some (.number (.ofInt number), rest) := by
  have hread := number?_integer number hrest
  obtain ⟨c, cs, hcs, hstart⟩ := exists_integer_eq_cons number
  rw [hcs, List.cons_append] at hread ⊢
  have hspace : skipSpace (c :: (cs ++ rest)) = c :: (cs ++ rest) := by
    simp [skipSpace, hstart.isSpace_eq_false]
  rw [tree?, hspace]
  split
  · next heq =>
    exact absurd (List.head_eq_of_cons_eq heq) (hstart.ne (by decide) rfl)
  · next heq =>
    exact absurd (List.head_eq_of_cons_eq heq) (hstart.ne (by decide) rfl)
  · next heq =>
    exact absurd (List.head_eq_of_cons_eq heq) (hstart.ne (by decide) rfl)
  · rw [plainScalar?.eq_def]
    split
    · next heq =>
      exact absurd (List.head_eq_of_cons_eq heq) (hstart.ne (by decide) rfl)
    · next heq =>
      exact absurd (List.head_eq_of_cons_eq heq) (hstart.ne (by decide) rfl)
    · next heq =>
      exact absurd (List.head_eq_of_cons_eq heq) (hstart.ne (by decide) rfl)
    · exact hread

/-- What is written for a value other than a decimal starts neither with a blank
nor with the end of a list. -/
theorem exists_write_eq_cons {value : Value} (h : ∀ number, value ≠ .decimal number)
    (rest : List Char) :
    ∃ c cs, write value rest = c :: cs ∧ isSpace c = false ∧ c ≠ ']' := by
  cases value with
  | null => exact ⟨'n', _, rfl, rfl, by decide⟩
  | boolean truth => cases truth with
    | true => exact ⟨'t', _, rfl, rfl, by decide⟩
    | false => exact ⟨'f', _, rfl, rfl, by decide⟩
  | integer number =>
    obtain ⟨c, cs, hcs, hstart⟩ := exists_integer_eq_cons number.toInt
    refine ⟨c, cs ++ rest, ?_, hstart.isSpace_eq_false, hstart.ne (by decide) rfl⟩
    rw [← List.cons_append, ← hcs]
    rfl
  | decimal number => exact absurd rfl (h number)
  | string text => exact ⟨'"', _, rfl, rfl, by decide⟩
  | array items => cases items with
    | nil => exact ⟨'[', _, rfl, rfl, by decide⟩
    | cons item items => exact ⟨'[', _, rfl, rfl, by decide⟩
  | object entries => cases entries with
    | nil => exact ⟨'\x7b', _, rfl, rfl, by decide⟩
    | cons entry entries => exact ⟨'\x7b', _, rfl, rfl, by decide⟩

/-- A quoted text takes room. -/
theorem length_lt_writeString (text : String) (rest : List Char) :
    rest.length < (writeString text rest).length := by
  have hchar : ∀ (c : Char) (rest : List Char), rest.length ≤ (writeChar c rest).length := by
    intro c rest
    unfold writeChar
    repeat' split
    all_goals
      simp only [List.length_cons]
      omega
  have hchars : ∀ cs : List Char, rest.length ≤ (cs.foldr writeChar ('"' :: rest)).length := by
    intro cs
    induction cs with
    | nil => exact Nat.le_succ _
    | cons c cs ih => exact Nat.le_trans ih (hchar c _)
  have hall := hchars text.toList
  rw [writeString, List.length_cons]
  omega

/-- A value is read back from its compact form, which takes room: the reader
needs two steps for every character of it at most. -/
structure Readable (value : Value) : Prop where
  /-- At least one character is written. -/
  grows : ∀ rest : List Char, rest.length < (write value rest).length
  /-- The tree of the value is read, and the text after it is left. -/
  reads : ∀ (fuel : Nat) (rest : List Char), EndsNumber rest →
    2 * (write value rest).length < fuel + 2 * rest.length →
    tree? fuel (write value rest) = some (.ofValue value, rest)

/-- A scalar is read in one step. -/
theorem Readable.of_scalar {value : Value}
    (hgrows : ∀ rest : List Char, rest.length < (write value rest).length)
    (hreads : ∀ (fuel : Nat) (rest : List Char), EndsNumber rest →
      tree? (fuel + 1) (write value rest) = some (.ofValue value, rest)) : Readable value where
  grows := hgrows
  reads fuel rest hrest hfuel := by
    have hroom := hgrows rest
    obtain ⟨fuel, rfl⟩ : ∃ fewer, fuel = fewer + 1 := ⟨fuel - 1, by omega⟩
    exact hreads fuel rest hrest

/-- Items that are readable take room. -/
theorem length_lt_writeItems {items : List Value} (h : ∀ item ∈ items, Readable item)
    (rest : List Char) : rest.length < (writeItems items rest).length := by
  induction items with
  | nil => exact Nat.lt_succ_self _
  | cons item items ih =>
    have hhere := (h item List.mem_cons_self).grows (writeItems items rest)
    have hlater := ih fun other hother => h other (List.mem_cons_of_mem _ hother)
    rw [writeItems, List.length_cons]
    omega

/-- Entries with readable values take room. -/
theorem length_lt_writeEntries {entries : List (String × Value)}
    (h : ∀ entry ∈ entries, Readable entry.2) (rest : List Char) :
    rest.length < (writeEntries entries rest).length := by
  induction entries with
  | nil => exact Nat.lt_succ_self _
  | cons entry entries ih =>
    obtain ⟨key, value⟩ := entry
    have hkey := length_lt_writeString key (':' :: write value (writeEntries entries rest))
    have hhere := (h (key, value) List.mem_cons_self).grows (writeEntries entries rest)
    have hlater := ih fun other hother => h other (List.mem_cons_of_mem _ hother)
    rw [List.length_cons] at hkey
    rw [writeEntries, List.length_cons]
    dsimp only at hhere
    omega

/-- No number goes on with the next item or the end of a list. -/
theorem endsNumber_writeItems (items : List Value) (rest : List Char) :
    EndsNumber (writeItems items rest) := by
  cases items with
  | nil =>
    intro c hc
    cases hc
    decide
  | cons item items =>
    intro c hc
    cases hc
    decide

/-- No number goes on with the next entry or the end of a mapping. -/
theorem endsNumber_writeEntries (entries : List (String × Value)) (rest : List Char) :
    EndsNumber (writeEntries entries rest) := by
  cases entries with
  | nil =>
    intro c hc
    cases hc
    decide
  | cons entry entries =>
    intro c hc
    cases hc
    decide

/-- Readable items are read up to the end of their list. -/
theorem items?_write (item : Value) (items : List Value)
    (h : ∀ other ∈ item :: items, Readable other) (fuel : Nat) (rest : List Char)
    (hfuel : 2 * (write item (writeItems items rest)).length + 1 < fuel + 2 * rest.length) :
    items? fuel (write item (writeItems items rest)) =
      some (Tree.ofItems (item :: items), rest) := by
  induction items generalizing item fuel with
  | nil =>
    have hitem := h item List.mem_cons_self
    have hgrows := hitem.grows (writeItems [] rest)
    have hroom : (writeItems [] rest).length = rest.length + 1 := rfl
    obtain ⟨fuel, rfl⟩ : ∃ fewer, fuel = fewer + 1 := ⟨fuel - 1, by omega⟩
    have hread := hitem.reads fuel _ (endsNumber_writeItems [] rest) (by omega)
    rw [items?, hread]
    rfl
  | cons next items ih =>
    have hitem := h item List.mem_cons_self
    have hlater : ∀ other ∈ next :: items, Readable other :=
      fun other hother => h other (List.mem_cons_of_mem _ hother)
    have hgrows := hitem.grows (writeItems (next :: items) rest)
    have hroom := length_lt_writeItems hlater rest
    have hcomma : (writeItems (next :: items) rest).length =
        (write next (writeItems items rest)).length + 1 := rfl
    obtain ⟨fuel, rfl⟩ : ∃ fewer, fuel = fewer + 1 := ⟨fuel - 1, by omega⟩
    have hread := hitem.reads fuel _ (endsNumber_writeItems (next :: items) rest) (by omega)
    have hothers := ih next hlater fuel (by omega)
    have hnext : skipSpace (writeItems (next :: items) rest) =
        ',' :: write next (writeItems items rest) := rfl
    rw [items?, hread]
    simp only [Option.bind_eq_bind, Option.bind_some, hnext, hothers]
    rfl

/-- Entries with readable values are read up to the end of their mapping. -/
theorem members?_write (key : String) (value : Value) (entries : List (String × Value))
    (h : ∀ entry ∈ (key, value) :: entries, Readable entry.2) (fuel : Nat) (rest : List Char)
    (hfuel : 2 * (writeString key (':' :: write value (writeEntries entries rest))).length + 1 <
      fuel + 2 * rest.length) :
    members? fuel (writeString key (':' :: write value (writeEntries entries rest))) =
      some (Tree.ofEntries ((key, value) :: entries), rest) := by
  induction entries generalizing key value fuel with
  | nil =>
    have hvalue := h (key, value) List.mem_cons_self
    have hkey := length_lt_writeString key (':' :: write value (writeEntries [] rest))
    have hgrows := hvalue.grows (writeEntries [] rest)
    have hroom : (writeEntries [] rest).length = rest.length + 1 := rfl
    rw [List.length_cons] at hkey
    dsimp only at hgrows
    obtain ⟨fuel, rfl⟩ : ∃ fewer, fuel = fewer + 1 := ⟨fuel - 1, by omega⟩
    have hread := hvalue.reads fuel _ (endsNumber_writeEntries [] rest) (by dsimp only; omega)
    rw [members?, key?_writeString]
    simp only [Option.bind_eq_bind, Option.bind_some, hread]
    rfl
  | cons next entries ih =>
    obtain ⟨nextKey, nextValue⟩ := next
    have hvalue := h (key, value) List.mem_cons_self
    have hlater : ∀ entry ∈ (nextKey, nextValue) :: entries, Readable entry.2 :=
      fun entry hentry => h entry (List.mem_cons_of_mem _ hentry)
    have hkey := length_lt_writeString key
      (':' :: write value (writeEntries ((nextKey, nextValue) :: entries) rest))
    have hgrows := hvalue.grows (writeEntries ((nextKey, nextValue) :: entries) rest)
    have hroom := length_lt_writeEntries hlater rest
    have hcomma : (writeEntries ((nextKey, nextValue) :: entries) rest).length =
        (writeString nextKey (':' :: write nextValue (writeEntries entries rest))).length + 1 := rfl
    rw [List.length_cons] at hkey
    dsimp only at hgrows
    obtain ⟨fuel, rfl⟩ : ∃ fewer, fuel = fewer + 1 := ⟨fuel - 1, by omega⟩
    have hread := hvalue.reads fuel _
      (endsNumber_writeEntries ((nextKey, nextValue) :: entries) rest) (by dsimp only; omega)
    have hothers := ih nextKey nextValue hlater fuel (by omega)
    have hnext : skipSpace (writeEntries ((nextKey, nextValue) :: entries) rest) =
        ',' :: writeString nextKey (':' :: write nextValue (writeEntries entries rest)) := rfl
    rw [members?, key?_writeString]
    simp only [Option.bind_eq_bind, Option.bind_some, hread, hnext, hothers]
    rfl

/-- A list that does not end at once holds items. -/
theorem tree?_list {c : Char} (hspace : isSpace c = false) (hend : c ≠ ']') (fuel : Nat)
    (cs : List Char) : tree? (fuel + 1) ('[' :: c :: cs) =
      (items? fuel (c :: cs)).map fun read => (.array read.1, read.2) := by
  have hopen : skipSpace ('[' :: c :: cs) = '[' :: c :: cs := rfl
  have hfirst : skipSpace (c :: cs) = c :: cs := by simp [skipSpace, hspace]
  rw [tree?, hopen]
  simp only [hfirst]
  split
  · next heq => exact absurd (List.head_eq_of_cons_eq heq) hend
  · rfl

/-- A mapping that starts with a key holds entries. -/
theorem tree?_mapping (fuel : Nat) (cs : List Char) : tree? (fuel + 1) ('\x7b' :: '"' :: cs) =
    (members? fuel ('"' :: cs)).map fun read => (.object read.1, read.2) := rfl

/-- A quote starts a text. -/
theorem tree?_text (fuel : Nat) (cs : List Char) : tree? (fuel + 1) ('"' :: cs) =
    (stringTail cs).map fun read => (.string read.1, read.2) := rfl

/-- A list is readable if its items are. -/
theorem Readable.array {items : List Value} (h : ∀ item ∈ items, Readable item)
    (hdecimal : ∀ item ∈ items, ∀ number, item ≠ .decimal number) : Readable (.array items) := by
  cases items with
  | nil =>
    refine .of_scalar (fun rest => ?_) fun fuel rest _ => rfl
    exact (Nat.lt_add_of_pos_right (Nat.succ_pos 1) : rest.length < rest.length + 2)
  | cons item items =>
    have hlater : ∀ other ∈ items, Readable other :=
      fun other hother => h other (List.mem_cons_of_mem _ hother)
    have hlength : ∀ rest : List Char, (write (.array (item :: items)) rest).length =
        (write item (writeItems items rest)).length + 1 := fun _ => rfl
    refine ⟨fun rest => ?_, fun fuel rest _ hfuel => ?_⟩
    · have hhere := (h item List.mem_cons_self).grows (writeItems items rest)
      have hroom := length_lt_writeItems hlater rest
      rw [hlength]
      omega
    · have hhere := (h item List.mem_cons_self).grows (writeItems items rest)
      have hroom := length_lt_writeItems hlater rest
      rw [hlength] at hfuel
      obtain ⟨fuel, rfl⟩ : ∃ fewer, fuel = fewer + 1 := ⟨fuel - 1, by omega⟩
      have hread := items?_write item items h fuel rest (by omega)
      obtain ⟨c, cs, hcs, hspace, hend⟩ :=
        exists_write_eq_cons (hdecimal item List.mem_cons_self) (writeItems items rest)
      rw [write, hcs, tree?_list hspace hend, ← hcs, hread]
      rfl

/-- A mapping is readable if the values of its entries are. -/
theorem Readable.object {entries : List (String × Value)}
    (h : ∀ entry ∈ entries, Readable entry.2) : Readable (.object entries) := by
  cases entries with
  | nil =>
    refine .of_scalar (fun rest => ?_) fun fuel rest _ => rfl
    exact (Nat.lt_add_of_pos_right (Nat.succ_pos 1) : rest.length < rest.length + 2)
  | cons entry entries =>
    obtain ⟨key, value⟩ := entry
    have hlater : ∀ other ∈ entries, Readable other.2 :=
      fun other hother => h other (List.mem_cons_of_mem _ hother)
    have hlength : ∀ rest : List Char, (write (.object ((key, value) :: entries)) rest).length =
        (writeString key (':' :: write value (writeEntries entries rest))).length + 1 :=
      fun _ => rfl
    refine ⟨fun rest => ?_, fun fuel rest _ hfuel => ?_⟩
    · have hkey := length_lt_writeString key (':' :: write value (writeEntries entries rest))
      have hhere := (h (key, value) List.mem_cons_self).grows (writeEntries entries rest)
      have hroom := length_lt_writeEntries hlater rest
      rw [List.length_cons] at hkey
      rw [hlength]
      dsimp only at hhere
      omega
    · have hkey := length_lt_writeString key (':' :: write value (writeEntries entries rest))
      have hhere := (h (key, value) List.mem_cons_self).grows (writeEntries entries rest)
      have hroom := length_lt_writeEntries hlater rest
      rw [List.length_cons] at hkey
      rw [hlength] at hfuel
      dsimp only at hhere
      obtain ⟨fuel, rfl⟩ : ∃ fewer, fuel = fewer + 1 := ⟨fuel - 1, by omega⟩
      have hread := members?_write key value entries h fuel rest (by omega)
      rw [writeString] at hread
      rw [write, writeString, tree?_mapping, hread]
      rfl

/-- Every value without decimals is readable. -/
theorem readable {value : Value} (h : value.DecimalFree) : Readable value := by
  induction value using Value.partInduction with
  | step value ih =>
    cases value with
    | null =>
      refine .of_scalar (fun rest => ?_) fun fuel rest _ => rfl
      exact (Nat.lt_add_of_pos_right (Nat.succ_pos 3) : rest.length < rest.length + 4)
    | boolean truth => cases truth with
      | true =>
        refine .of_scalar (fun rest => ?_) fun fuel rest _ => rfl
        exact (Nat.lt_add_of_pos_right (Nat.succ_pos 3) : rest.length < rest.length + 4)
      | false =>
        refine .of_scalar (fun rest => ?_) fun fuel rest _ => rfl
        exact (Nat.lt_add_of_pos_right (Nat.succ_pos 4) : rest.length < rest.length + 5)
    | integer number =>
      refine .of_scalar (fun rest => ?_) fun fuel rest hrest => tree?_integer _ hrest fuel
      obtain ⟨c, cs, hcs, -⟩ := exists_integer_eq_cons number.toInt
      have hwrite : write (.integer number) rest = Text.integer number.toInt ++ rest := rfl
      rw [hwrite, hcs, List.length_append, List.length_cons]
      omega
    | decimal number => exact absurd (Value.mem_parts_self _) (h number)
    | string text =>
      refine .of_scalar (length_lt_writeString text) fun fuel rest _ => ?_
      have hwrite : write (.string text) rest =
          '"' :: text.toList.foldr writeChar ('"' :: rest) := rfl
      rw [hwrite, tree?_text, stringTail_foldr_writeChar]
      rfl
    | array items =>
      have hitems : ∀ item ∈ items, item.DecimalFree :=
        fun item hitem => h.part (Value.Within.item hitem).mem_parts
      refine .array (fun item hitem => ih item (.item hitem) (hitems item hitem)) ?_
      rintro item hitem number rfl
      exact hitems _ hitem number (Value.mem_parts_self _)
    | object entries =>
      exact .object fun entry hentry => ih entry.2 (.entry hentry)
        (h.part (Value.Within.entry hentry).mem_parts)

end Trees

section Documents

/-- The trees of items denote the items if each does. -/
theorem itemsToValues?_ofItems {items : List Value}
    (h : ∀ item ∈ items, (Tree.ofValue item).toValue? = some item) :
    Tree.itemsToValues? (Tree.ofItems items) = some items := by
  induction items with
  | nil => rfl
  | cons item items ih =>
    have hhere := h item List.mem_cons_self
    have hlater := ih fun other hother => h other (List.mem_cons_of_mem _ hother)
    rw [Tree.ofItems, Tree.itemsToValues?, hhere, hlater]

/-- The trees of entries denote the entries if each does. -/
theorem membersToEntries?_ofEntries {entries : List (String × Value)}
    (h : ∀ entry ∈ entries, (Tree.ofValue entry.2).toValue? = some entry.2) :
    Tree.membersToEntries? (Tree.ofEntries entries) = some entries := by
  induction entries with
  | nil => rfl
  | cons entry entries ih =>
    obtain ⟨key, value⟩ := entry
    have hhere := h (key, value) List.mem_cons_self
    have hlater := ih fun other hother => h other (List.mem_cons_of_mem _ hother)
    dsimp only at hhere
    rw [Tree.ofEntries, Tree.membersToEntries?.eq_def]
    dsimp only
    rw [hhere, hlater]

/-- The tree of a document without decimals denotes it: no key is repeated, so
every entry keeps its place and its value. -/
theorem toValue?_ofValue {value : Value} (hdecimal : value.DecimalFree)
    (hwell : value.WellFormed) : (Tree.ofValue value).toValue? = some value := by
  induction value using Value.partInduction with
  | step value ih =>
    cases value with
    | integer number => exact toValue?_ofInt number
    | decimal number => exact absurd (Value.mem_parts_self _) (hdecimal number)
    | array items =>
      rw [Value.WellFormed] at hwell
      have hitems := itemsToValues?_ofItems fun item hitem => ih item (.item hitem)
        (hdecimal.part (Value.Within.item hitem).mem_parts)
        (Value.wellFormed_of_mem_items hwell hitem)
      rw [Tree.ofValue, Tree.toValue?, hitems, Option.map_some]
    | object entries =>
      rw [Value.WellFormed] at hwell
      have hentries := membersToEntries?_ofEntries fun entry hentry => ih entry.2 (.entry hentry)
        (hdecimal.part (Value.Within.entry hentry).mem_parts)
        (Value.wellFormed_of_mem_entries hwell.2 hentry)
      rw [Tree.ofValue, Tree.toValue?, hentries, Option.map_some,
        Entries.ofPairs_of_distinct hwell.1]
    | _ => rfl

/-- The trees of items are as deep as the items. -/
theorem itemsDepth_ofItems {items : List Value}
    (h : ∀ item ∈ items, (Tree.ofValue item).depth = item.depth) :
    Tree.itemsDepth (Tree.ofItems items) = Value.itemsDepth items := by
  induction items with
  | nil => rfl
  | cons item items ih =>
    rw [Tree.ofItems, Tree.itemsDepth, Value.itemsDepth, h item List.mem_cons_self,
      ih fun other hother => h other (List.mem_cons_of_mem _ hother)]

/-- The trees of entries are as deep as the entries. -/
theorem membersDepth_ofEntries {entries : List (String × Value)}
    (h : ∀ entry ∈ entries, (Tree.ofValue entry.2).depth = entry.2.depth) :
    Tree.membersDepth (Tree.ofEntries entries) = Value.entriesDepth entries := by
  induction entries with
  | nil => rfl
  | cons entry entries ih =>
    obtain ⟨key, value⟩ := entry
    rw [Tree.ofEntries, Tree.membersDepth, Value.entriesDepth, h (key, value) List.mem_cons_self,
      ih fun other hother => h other (List.mem_cons_of_mem _ hother)]

/-- The tree of a document is as deep as the document. -/
theorem depth_ofValue (value : Value) : (Tree.ofValue value).depth = value.depth := by
  induction value using Value.partInduction with
  | step value ih =>
    cases value with
    | array items =>
      rw [Tree.ofValue, Tree.depth, Value.depth,
        itemsDepth_ofItems fun item hitem => ih item (.item hitem)]
    | object entries =>
      rw [Tree.ofValue, Tree.depth, Value.depth,
        membersDepth_ofEntries fun entry hentry => ih entry.2 (.entry hentry)]
    | _ => rfl

/-- A document without decimals that is not nested too deeply is read back from
its compact form. -/
theorem parse?_render {value : Value} (hdecimal : value.DecimalFree) (hwell : value.WellFormed)
    (hdepth : value.depth ≤ Tree.depthLimit) : parse? (render value) = some value := by
  have hfuel : 2 * (write value []).length <
      2 * (write value []).length + 2 + 2 * ([] : List Char).length := by
    rw [List.length_nil]
    omega
  have hends : EndsNumber [] := fun c hc => nomatch hc
  have hread := (readable hdecimal).reads _ [] hends hfuel
  have htree : Tree.parse? (render value) = some (.ofValue value) := by
    rw [Tree.parse?, render, String.toList_ofList, hread]
    rfl
  rw [parse?, htree, Option.bind_some, Tree.toDocument?, if_pos (depth_ofValue value ▸ hdepth)]
  exact toValue?_ofValue hdecimal hwell

end Documents

end Json

namespace Template

/-- Reading undoes writing for documents without decimals that are at most 127
lists and mappings deep, and no two of them are written alike. -/
theorem parseJson_render (value : Value) (hwell : value.WellFormed)
    (hdecimal : value.DecimalFree) (hdepth : value.depth ≤ 127) :
    parseJson (Json.render value) = .ok value ∧
      ∀ other : Value, other.WellFormed → other.DecimalFree → other.depth ≤ 127 →
        Json.render other = Json.render value → other = value := by
  have hread := Json.parse?_render hdecimal hwell hdepth
  refine ⟨?_, fun other hotherWell hotherDecimal hotherDepth hsame => ?_⟩
  · rw [parseJson, hread]
  · have hother := Json.parse?_render hotherDecimal hotherWell hotherDepth
    rw [hsame, hread] at hother
    exact (Option.some.inj hother).symm

/-- A document with keys that are not in alphabetical order, characters that are
escaped, the least whole number and empty parts. -/
def oddDocument : Value :=
  .object [("z\"\\", .array [.null, .boolean true, .integer Int64.minValue, .array []]),
    ("a", .object [("\x01\n", .string "é/\x7f"), ("", .object [])])]

theorem parseJson_render_oddDocument :
    oddDocument.WellFormed ∧ oddDocument.DecimalFree ∧ oddDocument.depth ≤ 127 ∧
      parseJson (Json.render oddDocument) = .ok oddDocument := by
  have hwell : oddDocument.WellFormed := by
    simp [oddDocument, Value.WellFormed, Value.itemsWellFormed, Value.entriesWellFormed,
      Entries.Distinct, Entries.keys]
  have hdecimal : oddDocument.DecimalFree := by
    intro number h
    simp [oddDocument, Value.parts, Value.itemParts, Value.entryParts] at h
  have hdepth : oddDocument.depth ≤ 127 := by decide
  exact ⟨hwell, hdecimal, hdepth, (parseJson_render oddDocument hwell hdecimal hdepth).1⟩

end Template

end StackTemplate
