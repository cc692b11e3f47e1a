import Mathlib.Data.List.TakeDrop
import RuleCatalogue.Json
import RuleCatalogue.Proofs.Text.Substring
import RuleCatalogue.Proofs.Value

/-!
# JSON reads back what it writes

A value is written over several lines, with a margin in front of each, or in one line without any.
That it is read back is said of a value with whatever follows it, as long as no number goes on there
(`Spells`).  What is written in lists and tables differs between the layouts by the margins alone,
and the reader passes over them.

## Main definitions

* `Plain` is said of the values that are read back: those that every format holds, and null.
* `Spells` says that a text is read as a value.
* `bracketed` is what both layouts write of lists and tables.

## Main results

* `units?_escaped_append`: one character of a text.
* `bareValue_toString`: an integer.
* `spells_bracketed_items` and `spells_bracketed_fields`: lists and tables, with any margins.
* `parse_indentedText` and `parse_compactText`: a whole text.
-/

namespace RuleCatalogue.Json

/-! ## Characters -/

/-- The characters that are escaped with a letter, and their letters. -/
def escapeLetters : List (Char × Char) :=
  [('"', '"'), ('\\', '\\'), ('\n', 'n'), ('\r', 'r'), ('\t', 't'), ('\x08', 'b'), ('\x0c', 'f')]

/-- A character is escaped with a letter, escaped by its code point, or written as it is. -/
theorem escaped_cases (c : Char) :
    (∃ letter, (c, letter) ∈ escapeLetters ∧ escaped c = ['\\', letter])
      ∨ (c.toNat < 0x20 ∧ escaped c = '\\' :: 'u' :: Text.hexDigits 4 c.toNat)
      ∨ (c ≠ '"' ∧ c ≠ '\\' ∧ 0x20 ≤ c.toNat ∧ escaped c = [c]) := by
  by_cases hletter : ∃ letter, (c, letter) ∈ escapeLetters
  · obtain ⟨letter, hmem⟩ := hletter
    refine Or.inl ⟨letter, hmem, ?_⟩
    have hall : ∀ pair ∈ escapeLetters, escaped pair.1 = ['\\', pair.2] := by decide
    exact hall _ hmem
  · have hne (d letter : Char) (h : (d, letter) ∈ escapeLetters) : (c == d) = false :=
      beq_eq_false_iff_ne.mpr fun e => hletter ⟨letter, e ▸ h⟩
    have hquote := hne '"' '"' (by decide)
    have hbackslash := hne '\\' '\\' (by decide)
    have hescaped : escaped c
        = if c.toNat < 0x20 then '\\' :: 'u' :: Text.hexDigits 4 c.toNat else [c] := by
      rw [escaped, hquote, hbackslash, hne '\n' 'n' (by decide), hne '\r' 'r' (by decide),
        hne '\t' 't' (by decide), hne '\x08' 'b' (by decide), hne '\x0c' 'f' (by decide)]
      rfl
    rw [hescaped]
    split
    · next hcontrol => exact Or.inr (Or.inl ⟨hcontrol, rfl⟩)
    · next hplain =>
      exact Or.inr (Or.inr ⟨beq_eq_false_iff_ne.mp hquote, beq_eq_false_iff_ne.mp hbackslash,
        Nat.not_lt.mp hplain, rfl⟩)

/-- The four digits of an escape by code point. -/
theorem exists_hexDigits_eq {n : Nat} (h : n < 0x10000) :
    ∃ a b c d, Text.hexDigits 4 n = [a, b, c, d] ∧ Decimal.hexValue? [a, b, c, d] = some n := by
  have hlength : (Text.hexDigits 4 n).length = 4 := Decimal.length_hexDigits (by decide) h
  match hdigits : Text.hexDigits 4 n, hlength with
  | [a, b, c, d], _ => exact ⟨a, b, c, d, rfl, hdigits ▸ Decimal.hexValue?_hexDigits 4 n⟩

/-- **A character that was written is read**, as its own code and not as a half of a pair: the
writer leaves every character but the quote, the backslash and the control characters as it is. -/
theorem units?_escaped_append (c : Char) (rest : List Char) :
    units? (escaped c ++ rest)
      = (units? rest).map fun (units, after) => (c.toNat :: units, after) := by
  rcases escaped_cases c with ⟨letter, hmem, h⟩ | ⟨hcontrol, h⟩ | ⟨hquote, hbackslash, hplain, h⟩
  · have hall : ∀ pair ∈ escapeLetters, escape? pair.2 = some pair.1.toNat ∧ pair.2 ≠ 'u' := by
      decide
    obtain ⟨hescape, hu⟩ := hall _ hmem
    rw [h, List.cons_append, List.cons_append, List.nil_append, units?]
    · simp only [hescape]
    · exact fun _ _ _ _ _ e => absurd e hu
  · obtain ⟨a, b, c', d, hdigits, hvalue⟩ := exists_hexDigits_eq (n := c.toNat) (by omega)
    rw [h, hdigits]
    simp only [List.cons_append, List.nil_append]
    rw [units?]
    simp only [hvalue]
  · have hnot : ¬ (c.toNat < 0x20 || c == '\\') = true := by simp [hbackslash, hplain]
    rw [h, List.cons_append, List.nil_append, units?, if_neg hnot]
    · exact hquote
    · exact fun _ _ _ _ _ e => absurd e hbackslash
    · exact fun _ _ e => absurd e hbackslash

/-- What was escaped is read up to its quote, as the code points of its characters. -/
theorem units?_flatMap_escaped (s rest : List Char) :
    units? (s.flatMap escaped ++ '"' :: rest) = some (s.map Char.toNat, rest) := by
  induction s with
  | nil => rw [List.flatMap_nil, List.nil_append, units?, List.map_nil]
  | cons c s ih => rw [List.flatMap_cons, List.append_assoc, units?_escaped_append, ih]; rfl

/-- The units of characters are joined to nothing else. -/
theorem unitsChars_map_toNat (s : List Char) : unitsChars (s.map Char.toNat) = s := by
  have hunit (c : Char) : unitChar c.toNat = c := by
    rw [unitChar, Text.Surrogate.isEither_toNat]
    exact Char.ofNat_toNat c
  have hhigh (c : Char) : Text.Surrogate.isHigh c.toNat = false :=
    (Bool.or_eq_false_iff.mp (Text.Surrogate.isEither_toNat c)).1
  induction s with
  | nil => rfl
  | cons c s ih =>
    cases s with
    | nil => simp [unitsChars, hunit]
    | cons d s =>
      rw [List.map_cons, List.map_cons, unitsChars, hhigh, Bool.false_and, if_neg (by decide),
        hunit, ← List.map_cons, ih]

/-- **A text that was written is read**, by induction on its characters with
`units?_escaped_append`; the closing mark is the first one that is not escaped. -/
theorem text_flatMap_escaped (s : String) (rest : List Char) :
    text (s.toList.flatMap escaped ++ '"' :: rest) = .ok (s, rest) := by
  rw [text, units?_flatMap_escaped]
  simp only [unitsChars_map_toNat, String.ofList_toList]

/-! ## Numbers -/

/-- Digits are taken up to the first character that is none. -/
theorem spanDigits_append {digits rest : List Char} (hdigits : ∀ c ∈ digits, c.isDigit)
    (hrest : ∀ c ∈ rest.head?, c.isDigit = false) :
    spanDigits (digits ++ rest) = (digits, rest) := by
  have hnone : rest.takeWhile Char.isDigit = [] ∧ rest.dropWhile Char.isDigit = rest := by
    cases rest with
    | nil => exact ⟨rfl, rfl⟩
    | cons c rest => simp [hrest c rfl]
  rw [spanDigits, List.span_eq_takeWhile_dropWhile, List.takeWhile_append_of_pos hdigits,
    List.dropWhile_append_of_pos hdigits, hnone.1, hnone.2, List.append_nil]

/-- **No number goes on here**: with neither a digit, nor a point, nor an exponent. -/
def NumberEnds (rest : List Char) : Prop :=
  ∀ c ∈ rest.head?, c.isDigit = false ∧ c ∉ ['.', 'e', 'E']

/-- A number ends where the text ends. -/
theorem numberEnds_nil : NumberEnds [] := by
  rintro c ⟨⟩

/-- A number ends before every character that it cannot hold. -/
theorem numberEnds_cons {c : Char} (hdigit : c.isDigit = false) (hc : c ∉ ['.', 'e', 'E'])
    (rest : List Char) : NumberEnds (c :: rest) := by
  rintro _ ⟨⟩
  exact ⟨hdigit, hc⟩

/-- The digits of a number are taken whole; they begin with a zero for the zero alone. -/
theorem wholeDigits_toDigits (n : Nat) {rest : List Char} (hrest : NumberEnds rest) :
    wholeDigits (Nat.toDigits 10 n ++ rest) = (Nat.toDigits 10 n, rest) := by
  have hspan : spanDigits (Nat.toDigits 10 n ++ rest) = (Nat.toDigits 10 n, rest) :=
    spanDigits_append (fun c hc => Nat.isDigit_of_mem_toDigits (by decide) (by decide) hc)
      fun c hc => (hrest c hc).1
  rcases Decimal.toDigits_ten_cases n with hzero | ⟨d, more, hcons, hd⟩
  · rw [hzero]
    rfl
  · unfold wholeDigits
    split
    · next heq =>
      rw [hcons] at heq
      exact absurd (List.cons.inj heq).1 hd
    · exact hspan

/-- A number that ends here has no fraction. -/
theorem fraction_of_numberEnds {rest : List Char} (h : NumberEnds rest) :
    fraction rest = ([], rest) := by
  unfold fraction
  split
  · next more => exact absurd (by decide) (h '.' rfl).2
  · rfl

/-- A number that ends here has no exponent. -/
theorem exponent?_of_numberEnds {rest : List Char} (h : NumberEnds rest) :
    exponent? rest = (none, rest) := by
  unfold exponent?
  split
  · next c more =>
    have hletter : (c == 'e' || c == 'E') = false := by
      have hc := (h c rfl).2
      simp only [List.mem_cons, not_or] at hc
      simp [hc]
    simp [hletter]
  · rfl

/-- **An integer that was written is read.** `Decimal.Short` is the reader's bound on digits, and
`NumberEnds` says that `rest` does not go on with the number. -/
theorem unsignedNumber_toDigits {n : Int} (h : Decimal.Short n) {rest : List Char}
    (hrest : NumberEnds rest) :
    unsignedNumber (decide (n < 0)) (Nat.toDigits 10 n.natAbs ++ rest) = .ok (.int n, rest) := by
  have hnonempty : (Nat.toDigits 10 n.natAbs).isEmpty = false := by
    simp [Nat.toDigits_ne_nil]
  unfold unsignedNumber
  simp only [wholeDigits_toDigits n.natAbs hrest, fraction_of_numberEnds hrest,
    exponent?_of_numberEnds hrest, hnonempty, Decimal.integer_toDigits h]
  rfl

/-- No word is written like a number. -/
theorem find?_words_eq_none {sign : List Char} (hsign : sign = [] ∨ sign = ['-']) {d : Char}
    (hdigit : d.isDigit) (more : List Char) :
    words.find? (fun word => word.1.toList.isPrefixOf (sign ++ d :: more)) = none := by
  have hne (c : Char) (hc : c.isDigit = false) : c ≠ d := by
    rintro rfl
    exact absurd hdigit (by simp [hc])
  have hI := hne 'I' (by decide)
  rcases hsign with rfl | rfl
  · simp [words, hI, hne 'n' (by decide), hne 't' (by decide), hne 'f' (by decide),
      hne 'N' (by decide), hne '-' (by decide)]
  · simp [words, hI]

/-- An integer is read as one, because nothing behind it makes a fraction or an exponent of it. -/
theorem bareValue_toString {n : Int} (h : Decimal.Short n) {rest : List Char}
    (hrest : NumberEnds rest) :
    bareValue ((toString n).toList ++ rest) = .ok (.int n, rest) := by
  have hread := unsignedNumber_toDigits h hrest
  obtain ⟨d, more, hdigits, hd⟩ := Decimal.exists_toDigits_eq_cons n.natAbs
  rw [Decimal.toList_toString, hdigits, List.append_assoc, List.cons_append]
  rw [hdigits, List.cons_append] at hread
  unfold bareValue
  by_cases hneg : n < 0
  · rw [if_pos hneg, find?_words_eq_none (Or.inr rfl) hd]
    rw [decide_eq_true hneg] at hread
    exact hread
  · rw [if_neg hneg, find?_words_eq_none (Or.inl rfl) hd, List.nil_append]
    rw [decide_eq_false hneg] at hread
    dsimp only
    split
    · next heq =>
      rw [(List.cons.inj heq).1] at hd
      exact absurd hd (by decide)
    · exact hread

/-! ## Margins -/

/-- Nothing but space, as it stands around the parts of a text. -/
def Margin (s : List Char) : Prop :=
  ∀ c ∈ s, isSpace c

/-- There may be no margin at all. -/
theorem margin_nil : Margin [] := by
  rintro c ⟨⟩

/-- A line end with an indent is a margin. -/
theorem margin_newLine (level : Nat) : Margin (newLine level) := by
  intro c hc
  rcases List.mem_cons.mp hc with rfl | hc
  · decide
  · rw [(List.mem_replicate.mp hc).2]
    decide

/-- A space is a margin. -/
theorem margin_space : Margin [' '] := by
  intro c hc
  rw [List.mem_singleton.mp hc]
  decide

/-- The reader passes over a margin. -/
theorem skipSpace_margin_append {margin s : List Char} (hmargin : Margin margin)
    (hs : ∀ c ∈ s.head?, isSpace c = false) : skipSpace (margin ++ s) = s := by
  rw [skipSpace, List.dropWhile_append_of_pos hmargin]
  exact Text.dropWhile_of_head hs

/-- Space is skipped up to the first character that is none. -/
theorem skipSpace_margin_cons {margin : List Char} (hmargin : Margin margin) {c : Char}
    (hc : isSpace c = false) (rest : List Char) :
    skipSpace (margin ++ c :: rest) = c :: rest :=
  skipSpace_margin_append hmargin (by rintro _ ⟨⟩; exact hc)

/-- Brackets around nothing but margins. -/
theorem skipSpace_margins_cons {margin closing : List Char} (hmargin : Margin margin)
    (hclosing : Margin closing) {c : Char} (hc : isSpace c = false) (rest : List Char) :
    skipSpace (margin ++ (closing ++ c :: rest)) = c :: rest := by
  have hboth : Margin (margin ++ closing) := fun d hd =>
    (List.mem_append.mp hd).elim (hmargin d) (hclosing d)
  rw [← List.append_assoc]
  exact skipSpace_margin_cons hboth hc rest

/-- No number goes on behind a margin. -/
theorem numberEnds_margin_append {margin : List Char} (hmargin : Margin margin) {s : List Char}
    (hs : NumberEnds s) : NumberEnds (margin ++ s) := by
  cases margin with
  | nil => exact hs
  | cons c more =>
    have hspace : c ∈ [' ', '\t', '\n', '\r'] := by
      simpa [isSpace, or_assoc] using hmargin c List.mem_cons_self
    have hdigit : ∀ c ∈ [' ', '\t', '\n', '\r'], c.isDigit = false :=
      List.all_iff_forall_prop.mp (by decide)
    have hmark : ∀ c ∈ [' ', '\t', '\n', '\r'], c ∉ ['.', 'e', 'E'] :=
      List.all_iff_forall_prop.mp (by decide)
    exact numberEnds_cons (hdigit c hspace) (hmark c hspace) _

/-- A value that has begun does not begin with space. -/
theorem not_isSpace_of_begun {s : List Char} (h : Value.Begun s) :
    ∀ c ∈ s.head?, isSpace c = false := by
  obtain ⟨c, rest, rfl, hc⟩ := h.exists_eq_cons
  intro d hd
  cases hd
  simp only [List.mem_cons, not_or] at hc
  simp [isSpace, hc]

/-! ## Values -/

/-- **A value that is read back.** -/
inductive Plain : Value → Prop
  | null : Plain .null
  | text (s : String) : Plain (.text s)
  | bool (b : Bool) : Plain (.bool b)
  | int (n : Int) (short : Decimal.Short n) : Plain (.int n)
  | list (items : List Value) (all : ∀ v ∈ items, Plain v) : Plain (.list items)
  | table (fields : Fields Value) (nodup : fields.keys.Nodup)
      (all : ∀ field ∈ fields, Plain field.2) : Plain (.table fields)

/-- What both formats can hold, JSON can hold. -/
theorem plain_of_portable {v : Value} (h : v.Portable) : Plain v := by
  induction h with
  | text s => exact .text s
  | bool b => exact .bool b
  | int n short => exact .int n short
  | list items _ ih => exact .list items ih
  | table fields nodup _ ih => exact .table fields nodup ih

/-- Sorting names leaves a value one that JSON can hold. -/
theorem Plain.withSortedNames {v : Value} (h : Plain v) : Plain v.withSortedNames := by
  induction h with
  | null => exact .null
  | text s =>
    rw [Value.withSortedNames_text]
    exact .text s
  | bool b => exact .bool b
  | int n short => exact .int n short
  | list items _ ih =>
    rw [Value.withSortedNames_list]
    refine .list _ fun v hv => ?_
    obtain ⟨old, hold, rfl⟩ := List.mem_map.mp hv
    exact ih old hold
  | table fields nodup _ ih =>
    rw [Value.withSortedNames_table]
    refine .table _ (Value.nodup_keys_sortNames nodup) fun field hfield => ?_
    obtain ⟨old, hold, rfl⟩ := Value.mem_sortNames.mp hfield
    exact ih old hold

/-- **A text spells a value**: it is read as that value where no number goes on behind it. -/
structure Spells (chars : List Char) (v : Value) : Prop where
  begun : Value.Begun chars
  read : ∀ steps rest, NumberEnds rest → chars.length ≤ steps →
    value steps (chars ++ rest) = .ok (v, rest)

/-- Every value takes a step. -/
theorem spells_of_succ {chars : List Char} {v : Value} (hbegun : Value.Begun chars)
    (h : ∀ steps rest, NumberEnds rest → chars.length ≤ steps + 1 →
      value (steps + 1) (chars ++ rest) = .ok (v, rest)) : Spells chars v where
  begun := hbegun
  read steps rest hrest hsteps := by
    obtain ⟨c, more, hcons, -⟩ := hbegun.exists_eq_cons
    have hpos : 0 < chars.length := by simp [hcons]
    obtain ⟨steps, rfl⟩ : ∃ n, steps = n + 1 := ⟨steps - 1, by omega⟩
    exact h steps rest hrest hsteps

/-! ### Scalars -/

/-- A quoted text begins with its quote. -/
theorem begun_quotedChars (s : String) : Value.Begun (quotedChars s) :=
  ⟨'"', rfl, by decide⟩

/-- A quoted text spells that text. -/
theorem spells_text (s : String) : Spells (quotedChars s) (.text s) := by
  refine spells_of_succ (begun_quotedChars s) fun steps rest _ _ => ?_
  have hchars : quotedChars s ++ rest = '"' :: (s.toList.flatMap escaped ++ '"' :: rest) := by
    simp [quotedChars]
  rw [hchars, value, text_flatMap_escaped]
  rfl

/-- A word spells nothing. -/
theorem spells_null : Spells "null".toList .null :=
  spells_of_succ ⟨'n', rfl, by decide⟩ fun _ _ _ _ => rfl

/-- Two words spell the truth values. -/
theorem spells_bool (b : Bool) : Spells (if b then "true" else "false").toList (.bool b) := by
  cases b with
  | false => exact spells_of_succ ⟨'f', rfl, by decide⟩ fun _ _ _ _ => rfl
  | true => exact spells_of_succ ⟨'t', rfl, by decide⟩ fun _ _ _ _ => rfl

/-- An integer that is short enough is spelled by its digits. -/
theorem spells_int {n : Int} (h : Decimal.Short n) : Spells (toString n).toList (.int n) := by
  refine spells_of_succ (Value.begun_toString n) fun steps rest hrest _ => ?_
  have hbare := bareValue_toString h hrest
  obtain ⟨c, more, hcons, hc⟩ := Decimal.exists_toString_eq_cons n
  rw [hcons] at hbare ⊢
  rw [List.cons_append] at hbare ⊢
  have hne (d : Char) (hd : (d == '-' || d.isDigit) = false) : c ≠ d := by
    rintro rfl
    rw [hd] at hc
    exact absurd hc (by decide)
  rw [value, hbare]
  · exact fun _ h => hne '"' (by decide) (List.cons.inj h).1
  · exact fun _ h => hne '[' (by decide) (List.cons.inj h).1
  · exact fun _ h => hne '{' (by decide) (List.cons.inj h).1

/-! ### Lists and tables -/

/-- **Pieces between brackets**, with a margin before each of them and one behind them all. -/
def bracketed (first last : Char) (margin closing : List Char) (pieces : List (List Char)) :
    List Char :=
  first :: (margin ++ (separated (',' :: margin) pieces ++ (closing ++ [last])))

/-- A field, with a gap behind the colon. -/
def fieldChars (gap : List Char) (chars : Value → List Char) (field : String × Value) :
    List Char :=
  quotedChars field.1 ++ ':' :: (gap ++ chars field.2)

section Brackets

variable {margin closing gap : List Char} {chars : Value → List Char}

/-- Between two pieces stand a comma and a margin. -/
theorem separated_cons_cons (margin piece next : List Char) (rest : List (List Char)) :
    separated (',' :: margin) (piece :: next :: rest)
      = piece ++ ',' :: (margin ++ separated (',' :: margin) (next :: rest)) := by
  show piece ++ (',' :: margin) ++ _ = _
  rw [List.append_assoc]
  rfl

/-- Pieces begin with the first of them. -/
theorem begun_separated {piece : List Char} (h : Value.Begun piece) (separator : List Char)
    (rest : List (List Char)) : Value.Begun (separated separator (piece :: rest)) := by
  obtain ⟨more, hmore⟩ := exists_separated_cons_eq separator piece rest
  rw [hmore]
  exact h.append more

/-- What the reader finds behind a margin. -/
theorem skipSpace_separated (hmargin : Margin margin) {piece : List Char}
    (h : Value.Begun piece) (separator : List Char) (others : List (List Char))
    (rest : List Char) :
    skipSpace (margin ++ (separated separator (piece :: others) ++ rest))
      = separated separator (piece :: others) ++ rest :=
  skipSpace_margin_append hmargin
    (not_isSpace_of_begun ((begun_separated h separator others).append rest))

/-- A number ends before a comma. -/
theorem numberEnds_comma (rest : List Char) : NumberEnds (',' :: rest) :=
  numberEnds_cons (by decide) (by decide) rest

/-- A comma is no space. -/
theorem skipSpace_comma (rest : List Char) : skipSpace (',' :: rest) = ',' :: rest :=
  rfl

/-- An item is read where it was written. -/
theorem items_of_spells {steps : Nat} {piece after : List Char} {v : Value} (h : Spells piece v)
    (hafter : NumberEnds after) (hsteps : piece.length ≤ steps) :
    items (steps + 1) (piece ++ after) =
      match skipSpace after with
      | ']' :: rest => .ok ([v], rest)
      | ',' :: more => do
          let (others, rest) ← items steps (skipSpace more)
          return (v :: others, rest)
      | _ => malformed := by
  rw [items, h.read steps after hafter hsteps]
  rfl

/-- The items of a list are read one after another. -/
theorem items_separated (hmargin : Margin margin) (hclosing : Margin closing)
    {items : List Value} (hne : items ≠ []) (hspells : ∀ v ∈ items, Spells (chars v) v)
    (rest : List Char) (steps : Nat)
    (hsteps : (separated (',' :: margin) (items.map chars)).length < steps) :
    Json.items steps (separated (',' :: margin) (items.map chars) ++ (closing ++ ']' :: rest))
      = .ok (items, rest) := by
  induction items generalizing steps with
  | nil => exact absurd rfl hne
  | cons first others ih =>
    obtain ⟨steps, rfl⟩ : ∃ n, steps = n + 1 := ⟨steps - 1, by omega⟩
    have hfirst := hspells first List.mem_cons_self
    cases others with
    | nil =>
      have hend : NumberEnds (closing ++ ']' :: rest) :=
        numberEnds_margin_append hclosing (numberEnds_cons (by decide) (by decide) rest)
      rw [List.map_cons, List.map_nil, separated] at hsteps ⊢
      rw [items_of_spells hfirst hend (Nat.lt_succ_iff.mp hsteps),
        skipSpace_margin_cons hclosing (by decide)]
      rfl
    | cons second others =>
      have hsecond := hspells second (List.mem_cons_of_mem _ List.mem_cons_self)
      have htail := ih (List.cons_ne_nil _ _) (fun v hv => hspells v (List.mem_cons_of_mem _ hv))
        steps
      rw [List.map_cons, List.map_cons, separated_cons_cons] at hsteps ⊢
      rw [List.map_cons] at htail
      simp only [List.length_append, List.length_cons] at hsteps
      rw [List.append_assoc, List.cons_append, List.append_assoc,
        items_of_spells hfirst (numberEnds_comma _) (by omega), skipSpace_comma]
      simp only [skipSpace_separated hmargin hsecond.begun, htail (by omega)]
      rfl

/-- A field is read where it was written. -/
theorem pairs_fieldChars {steps : Nat} {field : String × Value} {after : List Char}
    (hgap : Margin gap) (h : Spells (chars field.2) field.2) (hafter : NumberEnds after)
    (hsteps : (fieldChars gap chars field).length ≤ steps) :
    pairs (steps + 1) (fieldChars gap chars field ++ after) =
      match skipSpace after with
      | '}' :: rest => .ok ([field], rest)
      | ',' :: more => do
          let (others, rest) ← pairs steps (skipSpace more)
          return (field :: others, rest)
      | _ => malformed := by
  obtain ⟨key, v⟩ := field
  have hlength : (chars v).length ≤ steps := by
    simp only [fieldChars, List.length_append, List.length_cons] at hsteps
    omega
  have hskip : skipSpace (gap ++ (chars v ++ after)) = chars v ++ after :=
    skipSpace_margin_append hgap (not_isSpace_of_begun (h.begun.append after))
  have hcolon (s : List Char) : skipSpace (':' :: s) = ':' :: s := rfl
  have hchars : fieldChars gap chars (key, v) ++ after
      = '"' :: (key.toList.flatMap escaped ++ '"' :: ':' :: (gap ++ (chars v ++ after))) := by
    simp [fieldChars, quotedChars]
  rw [hchars, pairs, text_flatMap_escaped]
  simp only [bind, Except.bind, hcolon, hskip, h.read steps after hafter hlength]
  rfl

/-- A field begins with the quote of its name. -/
theorem begun_fieldChars (field : String × Value) : Value.Begun (fieldChars gap chars field) :=
  (begun_quotedChars field.1).append _

/-- The fields of a table are read one after another. -/
theorem pairs_separated (hmargin : Margin margin) (hclosing : Margin closing) (hgap : Margin gap)
    {fields : Fields Value} (hne : fields ≠ [])
    (hspells : ∀ field ∈ fields, Spells (chars field.2) field.2) (rest : List Char) (steps : Nat)
    (hsteps : (separated (',' :: margin) (fields.map (fieldChars gap chars))).length < steps) :
    pairs steps (separated (',' :: margin) (fields.map (fieldChars gap chars))
      ++ (closing ++ '}' :: rest)) = .ok (fields, rest) := by
  induction fields generalizing steps with
  | nil => exact absurd rfl hne
  | cons field others ih =>
    obtain ⟨steps, rfl⟩ : ∃ n, steps = n + 1 := ⟨steps - 1, by omega⟩
    have hfield := hspells field List.mem_cons_self
    cases others with
    | nil =>
      have hend : NumberEnds (closing ++ '}' :: rest) :=
        numberEnds_margin_append hclosing (numberEnds_cons (by decide) (by decide) rest)
      rw [List.map_cons, List.map_nil, separated] at hsteps ⊢
      rw [pairs_fieldChars hgap hfield hend (Nat.lt_succ_iff.mp hsteps),
        skipSpace_margin_cons hclosing (by decide)]
      rfl
    | cons second others =>
      have htail := ih (List.cons_ne_nil _ _) (fun v hv => hspells v (List.mem_cons_of_mem _ hv))
        steps
      rw [List.map_cons, List.map_cons, separated_cons_cons] at hsteps ⊢
      rw [List.map_cons] at htail
      simp only [List.length_append, List.length_cons] at hsteps
      rw [List.append_assoc, List.cons_append, List.append_assoc,
        pairs_fieldChars hgap hfield (numberEnds_comma _) (by omega), skipSpace_comma]
      simp only [skipSpace_separated hmargin (begun_fieldChars second), htail (by omega)]
      rfl

/-- A list is read behind its bracket, past the margin in front of its items. -/
theorem value_list {steps : Nat} {s rest : List Char} {items : List Value}
    (hbegun : Value.Begun (skipSpace s)) (h : Json.items steps (skipSpace s) = .ok (items, rest)) :
    value (steps + 1) ('[' :: s) = .ok (.list items, rest) := by
  rw [value]
  split
  · next heq =>
    rw [heq] at hbegun
    exact absurd hbegun (Value.not_begun_cons (by decide) _)
  · rw [h]
    rfl

/-- A table is read behind its brace; it is made of the fields as they stand, because their names
differ. -/
theorem value_table {steps : Nat} {s rest : List Char} {fields : Fields Value}
    (hbegun : Value.Begun (skipSpace s)) (nodup : fields.keys.Nodup)
    (h : pairs steps (skipSpace s) = .ok (fields, rest)) :
    value (steps + 1) ('{' :: s) = .ok (.table fields, rest) := by
  rw [value]
  split
  · next heq =>
    rw [heq] at hbegun
    exact absurd hbegun (Value.not_begun_cons (by decide) _)
  · rw [h]
    show Except.ok (Value.table (Fields.ofList fields), rest) = _
    rw [Fields.ofList_of_nodup nodup]

/-- **A list**, whatever blanks are around its items: `margin` and `closing` are the line ends and
indents of the indented form, and nothing in the compact one. -/
theorem spells_bracketed_items (hmargin : Margin margin) (hclosing : Margin closing)
    {items : List Value} (hspells : ∀ v ∈ items, Spells (chars v) v) :
    Spells (bracketed '[' ']' margin closing (items.map chars)) (.list items) := by
  refine spells_of_succ ⟨'[', rfl, by decide⟩ fun steps rest _ hsteps => ?_
  simp only [bracketed, List.length_cons, List.length_append] at hsteps
  simp only [bracketed, List.cons_append, List.append_assoc, List.nil_append]
  cases items with
  | nil =>
    show value (steps + 1) ('[' :: (margin ++ (closing ++ ']' :: rest))) = _
    rw [value, skipSpace_margins_cons hmargin hclosing (by decide)]
    rfl
  | cons first others =>
    have hfirst := (hspells first List.mem_cons_self).begun
    have hread := items_separated hmargin hclosing (List.cons_ne_nil first others) hspells rest
      steps
    rw [List.map_cons] at hsteps hread ⊢
    apply value_list
    · rw [skipSpace_separated hmargin hfirst]
      exact (begun_separated hfirst _ _).append _
    · rw [skipSpace_separated hmargin hfirst]
      exact hread (by omega)

/-- **A table**, with any blanks behind the colons as well.  The names must differ, since the reader
lets a later field of one name replace an earlier one. -/
theorem spells_bracketed_fields (hmargin : Margin margin) (hclosing : Margin closing)
    (hgap : Margin gap) {fields : Fields Value} (nodup : fields.keys.Nodup)
    (hspells : ∀ field ∈ fields, Spells (chars field.2) field.2) :
    Spells (bracketed '{' '}' margin closing (fields.map (fieldChars gap chars)))
      (.table fields) := by
  refine spells_of_succ ⟨'{', rfl, by decide⟩ fun steps rest _ hsteps => ?_
  simp only [bracketed, List.length_cons, List.length_append] at hsteps
  simp only [bracketed, List.cons_append, List.append_assoc, List.nil_append]
  cases fields with
  | nil =>
    show value (steps + 1) ('{' :: (margin ++ (closing ++ '}' :: rest))) = _
    rw [value, skipSpace_margins_cons hmargin hclosing (by decide)]
    rfl
  | cons first others =>
    have hfirst : Value.Begun (fieldChars gap chars first) := begun_fieldChars first
    have hread := pairs_separated hmargin hclosing hgap (List.cons_ne_nil first others) hspells
      rest steps
    rw [List.map_cons] at hsteps hread ⊢
    apply value_table _ nodup
    · rw [skipSpace_separated hmargin hfirst]
      exact hread (by omega)
    · rw [skipSpace_separated hmargin hfirst]
      exact (begun_separated hfirst _ _).append _

end Brackets

/-! ## Layouts -/

/-- The writer goes through the items of a list one by one. -/
theorem indentedItems_eq_map (level : Nat) (items : List Value) :
    indentedItems level items = items.map (indentedChars level) := by
  induction items with
  | nil => rfl
  | cons v rest ih => rw [indentedItems, ih, List.map_cons]

/-- The writer goes through the fields of a table one by one. -/
theorem indentedFields_eq_map (level : Nat) (fields : Fields Value) :
    indentedFields level fields = fields.map (fieldChars [' '] (indentedChars level)) := by
  induction fields with
  | nil => rfl
  | cons field rest ih =>
    rw [indentedFields, ih, List.map_cons]
    rfl

/-- The same without spaces, for items. -/
theorem compactItems_eq_map (items : List Value) :
    compactItems items = items.map compactChars := by
  induction items with
  | nil => rfl
  | cons v rest ih => rw [compactItems, ih, List.map_cons]

/-- The same without spaces, for fields. -/
theorem compactFields_eq_map (fields : Fields Value) :
    compactFields fields = fields.map (fieldChars [] compactChars) := by
  induction fields with
  | nil => rfl
  | cons field rest ih =>
    rw [compactFields, ih, List.map_cons]
    rfl

/-- Brackets without pieces stand together, others have margins. -/
theorem exists_block_eq (first last : Char) (level : Nat) (pieces : List (List Char)) :
    ∃ margin closing, Margin margin ∧ Margin closing
      ∧ block first last level pieces = bracketed first last margin closing pieces := by
  cases pieces with
  | nil => exact ⟨[], [], margin_nil, margin_nil, rfl⟩
  | cons piece rest =>
    refine ⟨newLine (level + 1), newLine level, margin_newLine _, margin_newLine _, ?_⟩
    simp [block, bracketed]

/-- **One item a line**, by induction on the value.  `Plain` leaves out fractions, and integers past
the bound on digits. -/
theorem spells_indentedChars {v : Value} (h : Plain v) (level : Nat) :
    Spells (indentedChars level v) v := by
  induction h generalizing level with
  | null => exact spells_null
  | text s => exact spells_text s
  | bool b => exact spells_bool b
  | int n short => exact spells_int short
  | list items all ih =>
    obtain ⟨margin, closing, hmargin, hclosing, hblock⟩ :=
      exists_block_eq '[' ']' level (items.map (indentedChars (level + 1)))
    rw [indentedChars, indentedItems_eq_map, hblock]
    exact spells_bracketed_items hmargin hclosing fun v hv => ih v hv (level + 1)
  | table fields nodup all ih =>
    obtain ⟨margin, closing, hmargin, hclosing, hblock⟩ :=
      exists_block_eq '{' '}' level (fields.map (fieldChars [' '] (indentedChars (level + 1))))
    rw [indentedChars, indentedFields_eq_map, hblock]
    exact spells_bracketed_fields hmargin hclosing margin_space nodup
      fun field hfield => ih field hfield (level + 1)

/-- **One line**, by the same lemmas with no margins. -/
theorem spells_compactChars {v : Value} (h : Plain v) : Spells (compactChars v) v := by
  induction h with
  | null => exact spells_null
  | text s => exact spells_text s
  | bool b => exact spells_bool b
  | int n short => exact spells_int short
  | list items all ih =>
    rw [compactChars, compactItems_eq_map]
    exact spells_bracketed_items margin_nil margin_nil ih
  | table fields nodup all ih =>
    rw [compactChars, compactFields_eq_map]
    exact spells_bracketed_fields margin_nil margin_nil margin_nil nodup ih

/-- A value is read from a text that spells it and ends with a margin. -/
theorem parse_of_spells {s : String} {chars margin : List Char} {v : Value}
    (hchars : s.toList = chars ++ margin) (hspells : Spells chars v) (hmargin : Margin margin) :
    parse s = .ok v := by
  have hskip : skipSpace (chars ++ margin) = chars ++ margin :=
    Text.dropWhile_of_head (not_isSpace_of_begun (hspells.begun.append margin))
  have hend : NumberEnds margin := by
    have h := numberEnds_margin_append hmargin numberEnds_nil
    rwa [List.append_nil] at h
  have hrest : skipSpace margin = [] := List.dropWhile_eq_nil_iff.mpr hmargin
  rw [parse, hchars, hskip, hspells.read _ _ hend (by rw [List.length_append]; omega)]
  simp only [bind, Except.bind, hrest]
  rfl

/-- **JSON reads back what it writes**: the value, the names of its tables sorted, since the writer
sorts them and the reader keeps the order it finds. -/
theorem parse_indentedText {v : Value} (h : v.Portable) :
    parse (indentedText v ++ "\n") = .ok v.withSortedNames := by
  have hspells := spells_indentedChars (plain_of_portable h.withSortedNames) 0
  refine parse_of_spells ?_ hspells (margin_newLine 0)
  simp [indentedText, newLine]

/-- **JSON reads back the lines it writes.** This is the form of the log, where `Plain` asks less
than `Value.Portable` does. -/
theorem parse_compactText {v : Value} (h : Plain v) :
    parse (compactText v) = .ok v.withSortedNames := by
  refine parse_of_spells ?_ (spells_compactChars h.withSortedNames) margin_nil
  simp [compactText]

end RuleCatalogue.Json
