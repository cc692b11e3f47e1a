import Mathlib.Data.List.Forall2
import RuleCatalogue.Proofs.Json
import RuleCatalogue.Toml.Reader
import RuleCatalogue.Toml.Writer

/-!
# TOML values read back

The writer escapes as JSON does, and the delete character besides; the reader undoes both
(`basicText?_escaped_append`).  An integer is read as one because nothing behind it makes a date, a
time, another base or a fraction of its digits (`bareScalar_toString`).

A value in one line is read as that value, whatever ends it (`exists_spells`): scalars by their own
laws, the items of a list and the fields of an inline table one after another.  In an inline table
every name is new, so no field is refused and all of them stand in their order.

## Main definitions

* `Spells chars v`: whatever ends a value behind `chars`, the reader takes them as `v` and stops
  there.  It allows for any number of steps that is large enough, so pieces can be put together
  without counting.
* `row` puts pieces side by side, and `assignment` a name and a value.

## Main results

* `spells_text`, `spells_bool` and `spells_int`: scalars.
* `spells_list` and `spells_table`: compounds of pieces that spell their parts.
* `exists_valueChars`: every value that can be written is spelled by what is written of it.

## Design notes

The reader tries a bare scalar as one thing after another, and only the last attempt takes an
integer.  That the earlier ones do not is a lemma each, and rests on what may stand behind a value
(`Value.Ended`), not on the integer.
-/

/-! ## TOML reads back its scalars -/

namespace RuleCatalogue.Toml

/-! ## Texts -/

/-- **A character that was written is read**, as itself or by its escape; `consRead` puts it in
front of what the rest reads as. -/
theorem basicText?_escaped_append (c : Char) (rest : List Char) :
    basicText? (escaped c ++ rest) = consRead c (basicText? rest) := by
  unfold escaped
  split
  · next hdelete =>
    have hpoint : codePoint? ['0', '0', '7', 'F'] = some '\x7f' := by decide
    rw [beq_iff_eq.mp hdelete]
    show basicText? ('\\' :: 'u' :: '0' :: '0' :: '7' :: 'F' :: rest) = _
    rw [basicText?, hpoint]
    rfl
  · next hdelete =>
    rcases Json.escaped_cases c with ⟨letter, hmem, h⟩ | ⟨hcontrol, h⟩
      | ⟨hquote, hbackslash, hplain, h⟩
    · have hall : ∀ pair ∈ Json.escapeLetters,
          escape? pair.2 = some pair.1 ∧ pair.2 ≠ 'u' ∧ pair.2 ≠ 'U' := by
        decide
      obtain ⟨hescape, hu, hU⟩ := hall _ hmem
      rw [h, List.cons_append, List.cons_append, List.nil_append, basicText?, hescape]
      · rfl
      · exact fun _ _ _ _ _ e => absurd e hu
      · exact fun _ _ _ _ _ _ _ _ _ e => absurd e hU
    · obtain ⟨a, b, c', d, hdigits, hvalue⟩ := Json.exists_hexDigits_eq (n := c.toNat) (by omega)
      have hpoint : codePoint? [a, b, c', d] = some c := by
        have hlt : c.toNat < 0x110000 := by omega
        simp [codePoint?, hvalue, hlt, Text.Surrogate.isEither_toNat]
      rw [h, hdigits]
      simp only [List.cons_append, List.nil_append]
      rw [basicText?, hpoint]
      rfl
    · have hne : c.toNat ≠ 0x7F := fun e =>
        hdelete (beq_iff_eq.mpr (Char.toNat_inj.mp e))
      have hcontrol : isControl c = false := by
        simp [isControl, Nat.not_lt.mpr hplain, hne]
      have hnot : ¬ (isControl c || c == '\\') = true := by simp [hcontrol, hbackslash]
      rw [h, List.cons_append, List.nil_append, basicText?, if_neg hnot]
      · exact hquote
      · exact fun _ _ _ _ _ e => absurd e hbackslash
      · exact fun _ _ _ _ _ _ _ _ _ e => absurd e hbackslash
      · exact fun _ _ e => absurd e hbackslash

/-- **A text that was written is read**, up to its closing quote, by induction on the characters. -/
theorem basicText?_flatMap_escaped (s rest : List Char) :
    basicText? (s.flatMap escaped ++ '"' :: rest) = some (s, rest) := by
  induction s with
  | nil => rw [List.flatMap_nil, List.nil_append, basicText?]
  | cons c s ih =>
    rw [List.flatMap_cons, List.append_assoc, basicText?_escaped_append, ih]
    rfl

/-- No written character begins with a quote. -/
theorem exists_escaped_eq_cons (c : Char) : ∃ d rest, escaped c = d :: rest ∧ d ≠ '"' := by
  unfold escaped
  split
  · exact ⟨'\\', _, rfl, by decide⟩
  · rcases Json.escaped_cases c with ⟨letter, -, h⟩ | ⟨-, h⟩ | ⟨hquote, -, -, h⟩
    · exact ⟨_, _, h, by decide⟩
    · exact ⟨_, _, h, by decide⟩
    · exact ⟨_, _, h, hquote⟩

/-- A quoted text followed by more, with its opening and closing mark in front of the reader. -/
theorem quotedChars_append (s : String) (rest : List Char) :
    quotedChars s ++ rest = '"' :: (s.toList.flatMap escaped ++ '"' :: rest) := by
  rw [quotedChars, List.append_assoc]
  rfl

/-- A text is not taken for one of several lines. -/
theorem text?_quotedChars (s : String) {rest : List Char} (hrest : Value.Ended rest) :
    text? (quotedChars s ++ rest) = some (s.toList, rest) := by
  have hread := basicText?_flatMap_escaped s.toList rest
  rw [quotedChars_append]
  cases hs : s.toList with
  | nil =>
    rw [hs] at hread
    rw [List.flatMap_nil, List.nil_append] at hread ⊢
    rw [text?, hread]
    intro more heq
    rw [(List.cons.inj heq).2] at hrest
    exact absurd (hrest '"' rfl) (by decide)
  | cons c more =>
    obtain ⟨d, tail, hd, hquote⟩ := exists_escaped_eq_cons c
    rw [hs] at hread
    rw [List.flatMap_cons, hd, List.cons_append, List.cons_append] at hread ⊢
    rw [text?, hread]
    exact fun _ heq => absurd (List.cons.inj heq).1 hquote

/-! ## Integers -/

/-- Digits are read to their end. -/
theorem groupedDigits_append {digits rest : List Char}
    (hdigits : ∀ c ∈ digits, Decimal.isDigitOf 10 c)
    (hrest : ∀ c ∈ rest.head?, (c == '_' || Decimal.isDigitOf 10 c) = false) :
    groupedDigits 10 (digits ++ rest) = (digits, rest) := by
  induction digits with
  | nil =>
    cases rest with
    | nil => rfl
    | cons c rest =>
      have hc : Decimal.isDigitOf 10 c = false := (Bool.or_eq_false_iff.mp (hrest c rfl)).2
      rw [List.nil_append]
      unfold groupedDigits
      split <;> simp_all
  | cons d digits ih =>
    have hd := hdigits d List.mem_cons_self
    have hmore := ih fun c hc => hdigits c (List.mem_cons_of_mem d hc)
    have hnext : ∀ c ∈ (digits ++ rest).head?, c ≠ '_' := by
      intro c hc
      cases digits with
      | nil =>
        have hfalse := (Bool.or_eq_false_iff.mp (hrest c hc)).1
        exact beq_eq_false_iff_ne.mp hfalse
      | cons e digits =>
        cases hc
        rintro rfl
        exact absurd (hdigits '_' (by simp)) (by decide)
    rw [List.cons_append, groupedDigits, if_pos hd, hmore]
    intro e more heq
    exact hnext '_' (by rw [heq]; rfl) rfl

/-- The reader of digits takes all digits of a number and stops at whatever ends a value. -/
theorem wholeDigits_toDigits (n : Nat) {rest : List Char} (hrest : Value.Ended rest) :
    wholeDigits (Nat.toDigits 10 n ++ rest) = (Nat.toDigits 10 n, rest) := by
  have hread : groupedDigits 10 (Nat.toDigits 10 n ++ rest) = (Nat.toDigits 10 n, rest) :=
    groupedDigits_append
      (fun c hc => Decimal.isDigitOf_of_mem_toDigits (by decide) (by decide) hc)
      (hrest.false_of_all (p := fun c => c == '_' || Decimal.isDigitOf 10 c) (by decide))
  rcases Decimal.toDigits_ten_cases n with hzero | ⟨d, more, hcons, hd⟩
  · rw [hzero]
    rfl
  · unfold wholeDigits
    split
    · next heq =>
      rw [hcons] at heq
      exact absurd (List.cons.inj heq).1 hd
    · exact hread

/-- Behind a whole number that ends there is no fraction, since a full stop ends no value. -/
theorem fractionDigits_of_ended {rest : List Char} (h : Value.Ended rest) :
    fractionDigits rest = ([], rest) := by
  unfold fractionDigits
  split
  · next more => exact absurd (h '.' rfl) (by decide)
  · rfl

/-- Behind a whole number that ends there is no exponent, since no letter ends a value. -/
theorem exponent?_of_ended {rest : List Char} (h : Value.Ended rest) :
    exponent? rest = (none, rest) := by
  unfold exponent?
  split
  · next c more =>
    have hletter : (c == 'e' || c == 'E') = false :=
      h.false_of_all (p := fun c => c == 'e' || c == 'E') (by decide) c rfl
    simp [hletter]
  · rfl

/-- The sign of an integer, and its digits behind it. -/
theorem sign_toString (n : Int) (rest : List Char) :
    sign ((toString n).toList ++ rest)
      = (decide (n < 0), Nat.toDigits 10 n.natAbs ++ rest) := by
  rw [Decimal.toList_toString, List.append_assoc]
  by_cases hneg : n < 0
  · rw [if_pos hneg, decide_eq_true hneg]
    rfl
  · obtain ⟨d, more, hdigits, hd⟩ := Decimal.exists_toDigits_eq_cons n.natAbs
    rw [if_neg hneg, decide_eq_false hneg, hdigits, List.nil_append, List.cons_append]
    unfold sign
    split
    · next heq => exact absurd hd (by rw [(List.cons.inj heq).1]; decide)
    · next heq => exact absurd hd (by rw [(List.cons.inj heq).1]; decide)
    · rfl

/-- **An integer within the reader's bound on digits reads back as itself.** Past the bound the
reader refuses what the writer would have written, which is why `Decimal.Short` is asked. -/
theorem decimalNumber?_toString {n : Int} (h : Decimal.Short n) {rest : List Char}
    (hrest : Value.Ended rest) :
    decimalNumber? ((toString n).toList ++ rest) = some (.ok (.int n), rest) := by
  have hnonempty : (Nat.toDigits 10 n.natAbs).isEmpty = false := by
    simp [Nat.toDigits_ne_nil]
  unfold decimalNumber?
  simp only [sign_toString, wholeDigits_toDigits n.natAbs hrest, fractionDigits_of_ended hrest,
    exponent?_of_ended hrest, hnonempty, Decimal.integer_toDigits h]
  rfl

/-- Behind so many digits stands another digit, or what ends the number. -/
theorem mem_head?_drop {digits rest : List Char} (hdigits : ∀ c ∈ digits, c.isDigit)
    (hrest : Value.Ended rest) {count : Nat}
    (hlength : ((digits ++ rest).take count).length = count)
    (hall : ((digits ++ rest).take count).all Char.isDigit) :
    ∀ c ∈ ((digits ++ rest).drop count).head?, c.isDigit ∨ c ∈ [',', ']', ' ', '\n'] := by
  induction digits generalizing count with
  | nil =>
    cases count with
    | zero => exact fun c hc => Or.inr (hrest c hc)
    | succ count =>
      cases rest with
      | nil => exact absurd hlength (by simp)
      | cons c rest =>
        have hdigit : c.isDigit := List.all_eq_true.mp hall c (by simp)
        have hnone : c.isDigit = false := hrest.false_of_all (by decide) c rfl
        rw [hnone] at hdigit
        exact absurd hdigit (by decide)
  | cons d digits ih =>
    cases count with
    | zero =>
      intro c hc
      cases hc
      exact Or.inl (hdigits d List.mem_cons_self)
    | succ count =>
      rw [List.cons_append, List.take_succ_cons] at hlength hall
      exact ih (fun c hc => hdigits c (List.mem_cons_of_mem d hc)) (Nat.succ.inj hlength)
        (Bool.and_eq_true_iff.mp hall).2

/-- **The digits of an integer begin no date and no time**: the mark that would follow them there
does not.  `digits?` takes a fixed number of digits, behind which an integer has another one or
ends. -/
theorem behind?_of_digits? {n : Int} {rest : List Char} (hrest : Value.Ended rest) (mark : Char)
    (hmark : mark ∉ [',', ']', ' ', '\n']) (hdigit : mark.isDigit = false) {count low high : Nat}
    (hcount : 0 < count) {read : Nat × List Char}
    (hread : digits? count low high ((toString n).toList ++ rest) = some read) :
    behind? mark read.2 = none := by
  simp only [digits?] at hread
  split at hread
  · next hcond =>
    obtain ⟨hlength, hall, -, -⟩ := hcond
    cases hread
    rw [Decimal.toList_toString, List.append_assoc] at hlength hall ⊢
    by_cases hneg : n < 0
    · obtain ⟨count, rfl⟩ : ∃ k, count = k + 1 := ⟨count - 1, by omega⟩
      rw [if_pos hneg] at hall
      exact absurd (Bool.and_eq_true_iff.mp hall).1 (by decide)
    · rw [if_neg hneg, List.nil_append] at hlength hall ⊢
      have hdigits : ∀ c ∈ Nat.toDigits 10 n.natAbs, c.isDigit := fun c hc =>
        Nat.isDigit_of_mem_toDigits (by decide) (by decide) hc
      have hnext := mem_head?_drop hdigits hrest hlength hall
      show behind? mark ((Nat.toDigits 10 n.natAbs ++ rest).drop count) = none
      unfold behind?
      split
      · next c more heq =>
        rw [heq] at hnext
        have hne : c ≠ mark := by
          rintro rfl
          rcases hnext c rfl with h | h
          · exact absurd h (by simp [hdigit])
          · exact hmark h
        simp [hne]
      · rfl
  · cases hread

/-- A number is not taken for a date: a date has a hyphen behind its fourth digit, where a number
has a digit or has ended. -/
theorem moment?_toString (n : Int) {rest : List Char} (hrest : Value.Ended rest) :
    moment? ((toString n).toList ++ rest) = none := by
  have hdate : date? ((toString n).toList ++ rest) = none := by
    unfold date?
    cases hread : digits? 4 0 9999 ((toString n).toList ++ rest) with
    | none => rfl
    | some read =>
      have hmark := behind?_of_digits? hrest '-' (by decide) (by decide) (by decide) hread
      simp [hmark]
  rw [moment?, hdate]
  rfl

/-- A number is not taken for a time, which has a colon behind its second digit. -/
theorem timeOfDay?_toString (n : Int) {rest : List Char} (hrest : Value.Ended rest) :
    timeOfDay? ((toString n).toList ++ rest) = none := by
  unfold timeOfDay?
  cases hread : digits? 2 0 23 ((toString n).toList ++ rest) with
  | none => rfl
  | some read =>
    have hmark := behind?_of_digits? hrest ':' (by decide) (by decide) (by decide) hread
    simp [hmark]

/-- A number is not taken for one in another base, since the letter of a base follows a zero that
stands first. -/
theorem basedInteger?_toString (n : Int) {rest : List Char} (hrest : Value.Ended rest) :
    basedInteger? ((toString n).toList ++ rest) = none := by
  have hletter (letter : Char) (hended : letter ∉ [',', ']', ' ', '\n']) (more : List Char) :
      (toString n).toList ++ rest ≠ '0' :: letter :: more := by
    intro heq
    rw [Decimal.toList_toString] at heq
    split at heq
    · exact absurd (List.cons.inj heq).1 (by decide)
    · rcases Decimal.toDigits_ten_cases n.natAbs with hzero | ⟨d, digits, hcons, hd⟩
      · rw [hzero] at heq
        have hrest' : rest = letter :: more := (List.cons.inj heq).2
        rw [hrest'] at hrest
        exact hended (hrest letter rfl)
      · rw [hcons] at heq
        exact hd (List.cons.inj heq).1
  unfold basedInteger?
  split
  · next heq => exact absurd heq (hletter 'x' (by decide) _)
  · next heq => exact absurd heq (hletter 'b' (by decide) _)
  · next heq => exact absurd heq (hletter 'o' (by decide) _)
  · rfl

/-- **An integer that was written is read.** A bare scalar is tried as a date, a time, a number in
another base and a decimal number in turn; the first three find nothing, by the lemmas above. -/
theorem bareScalar_toString {n : Int} (h : Decimal.Short n) {rest : List Char}
    (hrest : Value.Ended rest) :
    bareScalar ((toString n).toList ++ rest) = .ok (.int n, rest) := by
  obtain ⟨c, more, hcons, hc⟩ := Decimal.exists_toString_eq_cons n
  unfold bareScalar
  split
  · next heq => exact absurd hc (by rw [hcons] at heq; rw [(List.cons.inj heq).1]; decide)
  · next heq => exact absurd hc (by rw [hcons] at heq; rw [(List.cons.inj heq).1]; decide)
  · rw [moment?_toString n hrest, timeOfDay?_toString n hrest, basedInteger?_toString n hrest,
      decimalNumber?_toString h hrest]
    rfl

end RuleCatalogue.Toml

/-! ## TOML reads back its values -/

namespace RuleCatalogue.Toml

/-- **A text spells a value**: it is read as that value where something ends it. -/
structure Spells (chars : List Char) (v : Value) : Prop where
  begun : Value.Begun chars
  /-- Line ends are left alone where a document is read. -/
  noReturn : '\r' ∉ chars
  read : ∀ steps rest, Value.Ended rest → chars.length ≤ steps →
    value steps (chars ++ rest) = .ok (v, rest)

/-- Every value takes a step. -/
theorem spells_of_succ {chars : List Char} {v : Value} (hbegun : Value.Begun chars)
    (hreturn : '\r' ∉ chars) (h : ∀ steps rest, Value.Ended rest → chars.length ≤ steps + 1 →
      value (steps + 1) (chars ++ rest) = .ok (v, rest)) : Spells chars v where
  begun := hbegun
  noReturn := hreturn
  read steps rest hrest hsteps := by
    obtain ⟨c, more, hcons, -⟩ := hbegun.exists_eq_cons
    have hpos : 0 < chars.length := by simp [hcons]
    obtain ⟨steps, rfl⟩ : ∃ n, steps = n + 1 := ⟨steps - 1, by omega⟩
    exact h steps rest hrest hsteps

/-! ## Scalars -/

/-- A quoted text begins with its mark, so nothing before it is skipped. -/
theorem begun_quotedChars (s : String) : Value.Begun (quotedChars s) :=
  ⟨'"', rfl, by decide⟩

/-- The writer escapes carriage returns, and the reader's change of line ends meets none. -/
theorem return_not_mem_quotedChars (s : String) : '\r' ∉ quotedChars s := by
  have hchar (c : Char) : '\r' ∉ escaped c := by
    unfold escaped
    split
    · decide
    · rcases Json.escaped_cases c with ⟨letter, hmem, h⟩ | ⟨hcontrol, h⟩ | ⟨-, -, hplain, h⟩
      · have hall : ∀ pair ∈ Json.escapeLetters, '\r' ∉ ['\\', pair.2] := by decide
        rw [h]
        exact hall _ hmem
      · rw [h]
        have hdigits : '\r' ∉ Text.hexDigits 4 c.toNat := fun hmem =>
          absurd (Decimal.isDigitOf_of_mem_hexDigits hmem) (by decide)
        simp [hdigits]
      · rw [h, List.mem_singleton]
        rintro rfl
        exact absurd hplain (by decide)
  rw [quotedChars]
  simp [hchar]

/-- A number holds no carriage return. -/
theorem return_not_mem_toString (n : Int) : '\r' ∉ (toString n).toList := by
  have hdigits : '\r' ∉ Nat.toDigits 10 n.natAbs := fun h =>
    absurd (Nat.isDigit_of_mem_toDigits (by decide) (by decide) h) (by decide)
  rw [Decimal.toList_toString]
  split
  · simp [hdigits]
  · exact hdigits

/-- A quoted text spells the text it quotes. -/
theorem spells_text (s : String) : Spells (quotedChars s) (.text s) := by
  refine spells_of_succ (begun_quotedChars s) (return_not_mem_quotedChars s)
    fun steps rest hrest _ => ?_
  have hread := text?_quotedChars s hrest
  rw [quotedChars_append] at hread ⊢
  rw [value, hread, if_pos (by decide)]
  · show Except.ok (Value.text (String.ofList s.toList), rest) = _
    rw [String.ofList_toList]
  · decide
  · decide

/-- The two words for truth values spell them. -/
theorem spells_bool (b : Bool) : Spells (if b then "true" else "false").toList (.bool b) := by
  refine spells_of_succ (by cases b <;> exact ⟨_, rfl, by decide⟩) (by cases b <;> decide)
    fun steps rest _ _ => ?_
  cases b <;> rfl

/-- A number spells itself within the bound on digits. -/
theorem spells_int {n : Int} (h : Decimal.Short n) : Spells (toString n).toList (.int n) := by
  refine spells_of_succ (Value.begun_toString n) (return_not_mem_toString n)
    fun steps rest hrest _ => ?_
  have hread := bareScalar_toString h hrest
  obtain ⟨c, more, hcons, hc⟩ := Decimal.exists_toString_eq_cons n
  rw [hcons, List.cons_append] at hread ⊢
  have hne (d : Char) (hd : (d == '-' || d.isDigit) = false) : c ≠ d := by
    rintro rfl
    rw [hd] at hc
    exact absurd hc (by decide)
  have hnoText : ¬ (c == '"' || c == '\'') = true := by
    simp [hne '"' (by decide), hne '\'' (by decide)]
  rw [value, if_neg hnoText, hread]
  · exact hne '[' (by decide)
  · exact hne '{' (by decide)

/-! ## Lists -/

/-- Nothing is skipped before a character that is neither space nor the sign of a comment. -/
theorem skipLines?_of_head {s : List Char} (steps : Nat)
    (h : ∀ c ∈ s.head?, isSpaceOrNewline c = false ∧ c ≠ '#') :
    skipLines? (steps + 1) s = some s := by
  have hdrop : s.dropWhile isSpaceOrNewline = s := Text.dropWhile_of_head fun c hc => (h c hc).1
  rw [skipLines?, hdrop]
  split
  · exact absurd rfl (h '#' rfl).2
  · rfl

/-- Where a value begins there is nothing to skip: neither blank, nor comment, nor line end. -/
theorem skipLines?_of_begun {s : List Char} (steps : Nat) (h : Value.Begun s) :
    skipLines? (steps + 1) s = some s := by
  refine skipLines?_of_head steps fun c hc => ?_
  obtain ⟨d, rest, rfl, hd⟩ := h.exists_eq_cons
  cases hc
  simp only [List.mem_cons, not_or] at hd
  simp [isSpaceOrNewline, isSpace, hd]

/-- A space in front of a value is skipped without a step of the bound. -/
theorem skipLines?_space_cons (steps : Nat) (s : List Char) :
    skipLines? (steps + 1) (' ' :: s) = skipLines? (steps + 1) s := by
  rw [skipLines?, skipLines?, List.dropWhile_cons_of_pos (by decide)]

/-- Pieces in one line. -/
def row (pieces : List (List Char)) : List Char :=
  Json.separated [',', ' '] pieces

/-- A row of one piece has no separator. -/
@[simp] theorem row_singleton (piece : List Char) : row [piece] = piece := rfl

/-- The separator is a comma and a space, between any two pieces. -/
theorem row_cons_cons (piece next : List Char) (rest : List (List Char)) :
    row (piece :: next :: rest) = piece ++ ',' :: ' ' :: row (next :: rest) := by
  show piece ++ [',', ' '] ++ _ = _
  rw [List.append_assoc]
  rfl

/-- A row begins with its first piece. -/
theorem begun_row {piece : List Char} (h : Value.Begun piece) (rest : List (List Char)) :
    Value.Begun (row (piece :: rest)) := by
  obtain ⟨more, hmore⟩ := Json.exists_separated_cons_eq [',', ' '] piece rest
  rw [row, hmore]
  exact h.append more

/-- A row adds no carriage return to those of its pieces. -/
theorem return_not_mem_row {pieces : List (List Char)} (h : ∀ piece ∈ pieces, '\r' ∉ piece) :
    '\r' ∉ row pieces := by
  intro hmem
  rcases Json.mem_separated hmem with hseparator | ⟨piece, hpiece, hchar⟩
  · exact absurd hseparator (by decide)
  · exact h piece hpiece hchar

/-- The four characters the writer puts behind a value all end it. -/
theorem ended_of_cons {c : Char} (h : c ∈ [',', ']', ' ', '\n']) (rest : List Char) :
    Value.Ended (c :: rest) := by
  intro d hd
  cases hd
  exact h

/-- The last item is read where it was written. -/
theorem items_last {chars : List Char} {v : Value} (h : Spells chars v) {steps : Nat}
    (hsteps : chars.length ≤ steps + 1) (rest : List Char) :
    items (steps + 2) (chars ++ ']' :: rest) = .ok ([v], rest) := by
  have hskip : skipLines? (steps + 1) (']' :: rest) = some (']' :: rest) :=
    skipLines?_of_head steps (by intro c hc; cases hc; decide)
  rw [items, h.read _ _ (ended_of_cons (by decide) rest) hsteps]
  simp only [bind, Except.bind, hskip, required]
  rfl

/-- An item that is not the last is read where it was written. -/
theorem items_more {chars more rest : List Char} {v : Value} {others : List Value}
    (h : Spells chars v) (hmore : Value.Begun more) {steps : Nat}
    (hsteps : chars.length ≤ steps + 1) (hothers : items (steps + 1) more = .ok (others, rest)) :
    items (steps + 2) (chars ++ ',' :: ' ' :: more) = .ok (v :: others, rest) := by
  have hcomma : skipLines? (steps + 1) (',' :: ' ' :: more) = some (',' :: ' ' :: more) :=
    skipLines?_of_head steps (by intro c hc; cases hc; decide)
  have hskip : skipLines? (steps + 1) (' ' :: more) = some more := by
    rw [skipLines?_space_cons, skipLines?_of_begun steps hmore]
  rw [items, h.read _ _ (ended_of_cons (by decide) _) hsteps]
  simp only [bind, Except.bind, hcomma, hskip, required]
  split
  · exact absurd hmore (Value.not_begun_cons (by decide) _)
  · rw [hothers]
    rfl

/-- **The items of a list are read one after another.** The steps only have to exceed the number of
characters, since each item and each separator takes at least one. -/
theorem items_row {pieces : List (List Char)} {items : List Value}
    (h : List.Forall₂ Spells pieces items) (hne : items ≠ []) (rest : List Char) {steps : Nat}
    (hsteps : (row pieces).length < steps) :
    Toml.items steps (row pieces ++ ']' :: rest) = .ok (items, rest) := by
  induction h generalizing steps with
  | nil => exact absurd rfl hne
  | @cons piece v pieces others hpiece hothers ih =>
    obtain ⟨c, tail, hcons, -⟩ := hpiece.begun.exists_eq_cons
    have hpos : 0 < piece.length := by simp [hcons]
    cases hothers with
    | nil =>
      rw [row_singleton] at hsteps ⊢
      obtain ⟨steps, rfl⟩ : ∃ n, steps = n + 2 := ⟨steps - 2, by omega⟩
      exact items_last hpiece (by omega) rest
    | @cons next w pieces others hnext hothers =>
      rw [row_cons_cons] at hsteps ⊢
      simp only [List.length_append, List.length_cons] at hsteps
      obtain ⟨steps, rfl⟩ : ∃ n, steps = n + 2 := ⟨steps - 2, by omega⟩
      rw [List.append_assoc]
      exact items_more hpiece ((begun_row hnext.begun _).append _) (by omega)
        (ih (List.cons_ne_nil _ _) (by omega))

/-- An array is read by the reader of its items, two steps of the bound further down. -/
theorem value_list {s rest : List Char} {items : List Value} (hbegun : Value.Begun s)
    {steps : Nat} (h : Toml.items (steps + 1) s = .ok (items, rest)) :
    value (steps + 2) ('[' :: s) = .ok (.list items, rest) := by
  rw [value]
  simp only [bind, Except.bind, skipLines?_of_begun steps hbegun, required]
  split
  · exact absurd hbegun (Value.not_begun_cons (by decide) _)
  · rw [h]
    rfl

/-- **The items in brackets spell the array**, when each piece spells its item, by `items_row` and
`value_list`. -/
theorem spells_list {pieces : List (List Char)} {items : List Value}
    (h : List.Forall₂ Spells pieces items) :
    Spells ('[' :: row pieces ++ [']']) (.list items) := by
  have hreturn : '\r' ∉ row pieces := return_not_mem_row
    ((List.forall₂_and_left pieces items).mp (h.imp fun _ _ hv => ⟨hv.noReturn, hv⟩)).1
  refine spells_of_succ ⟨'[', rfl, by decide⟩ (by simp [hreturn]) fun steps rest _ hsteps => ?_
  simp only [List.length_append, List.length_cons, List.length_nil] at hsteps
  obtain ⟨steps, rfl⟩ : ∃ n, steps = n + 1 := ⟨steps - 1, by omega⟩
  rw [List.cons_append, List.cons_append, List.append_assoc]
  cases h with
  | nil =>
    have hskip : skipLines? (steps + 1) (']' :: rest) = some (']' :: rest) :=
      skipLines?_of_head steps (by intro c hc; cases hc; decide)
    show value (steps + 2) ('[' :: ']' :: rest) = _
    rw [value, hskip]
    rfl
  | @cons piece v pieces others hpiece hothers =>
    exact value_list ((begun_row hpiece.begun pieces).append _)
      (items_row (.cons hpiece hothers) (List.cons_ne_nil _ _) rest (by omega))

/-! ## Inline tables -/

/-- A name and the value behind it, with an equals sign between spaces. -/
def assignment (name chars : List Char) : List Char :=
  name ++ ' ' :: '=' :: ' ' :: chars

/-- A field begins with its quoted key. -/
theorem begun_assignment (key : String) (chars : List Char) :
    Value.Begun (assignment (quotedChars key) chars) :=
  ⟨'"', rfl, by decide⟩

/-- The one space on either side of the equals sign is skipped, and nothing more. -/
theorem skipSpace_space_cons {s : List Char} (h : Value.Begun s) : skipSpace (' ' :: s) = s := by
  rw [skipSpace, List.dropWhile_cons_of_pos (by decide)]
  refine Text.dropWhile_of_head fun c hc => ?_
  obtain ⟨d, rest, rfl, hd⟩ := h.exists_eq_cons
  cases hc
  simp only [List.mem_cons, not_or] at hd
  simp [isSpace, hd]

/-- A field is read where it was written. -/
theorem field_assignment {name chars after : List Char} {key : String} {v : Value}
    (hname : ∀ rest, namePart? (name ++ ' ' :: rest) = some (key, ' ' :: rest))
    (h : Spells chars v) (hafter : Value.Ended after) {steps : Nat}
    (hsteps : chars.length ≤ steps + 1) :
    field (steps + 2) (assignment name chars ++ after) = .ok ([key], v, after) := by
  have hread : name? (steps + 1) (name ++ ' ' :: '=' :: ' ' :: (chars ++ after))
      = some ([key], '=' :: ' ' :: (chars ++ after)) := by
    rw [name?, hname]
    rfl
  have hskip : skipSpace (' ' :: (chars ++ after)) = chars ++ after :=
    skipSpace_space_cons (h.begun.append after)
  have hchars : assignment name chars ++ after
      = name ++ ' ' :: '=' :: ' ' :: (chars ++ after) := by
    simp [assignment]
  rw [hchars, field, hread]
  simp only [bind, Except.bind, required, hskip, h.read _ _ hafter hsteps]
  rfl

/-- A quoted key reads back as the key, whatever characters it has. -/
theorem namePart?_quotedChars (key : String) (rest : List Char) :
    namePart? (quotedChars key ++ ' ' :: rest) = some (key, ' ' :: rest) := by
  rw [quotedChars_append, namePart?, basicText?_flatMap_escaped]
  show some (String.ofList key.toList, _) = _
  rw [String.ofList_toList]

/-- What the fields of an inline table froze are their own names. -/
def FrozenWithin (frozen : List Path) (fields : Fields Value) : Prop :=
  ∀ path ∈ frozen, ∃ key ∈ fields.keys, path = [key]

/-- A name that is new is added to an inline table. -/
theorem addInline_of_new {frozen : List Path} {fields : Fields Value} {key : String}
    (hnew : key ∉ fields.keys) (hfrozen : FrozenWithin frozen fields)
    (v : Value) : addInline frozen [key] v fields = some (fields ++ [(key, v)]) := by
  have hbelow : isBelow frozen [key] = false := by
    rw [isBelow, List.any_eq_false]
    intro path hpath
    obtain ⟨other, hother, rfl⟩ := hfrozen path hpath
    have hne : other ≠ key := fun e => hnew (e ▸ hother)
    simp [hne]
  have hhas : Fields.has key fields = false := by
    rw [Fields.has, Fields.get?_eq_none_iff.mpr hnew]
    rfl
  rw [addInline, hbelow]
  show updateNest false (addField key v) [] fields = _
  rw [updateNest, addField, hhas, ← Fields.insert_of_not_mem hnew]
  rfl

/-- One field of an inline table and the rest of it. The key must be new, and the tables already
closed must be among the fields read so far; both are kept from field to field by
`frozenWithin_snoc`. -/
theorem inlineFields_assignment {chars after : List Char} {v : Value} {key : String}
    (h : Spells chars v) (hafter : Value.Ended after) {steps : Nat}
    (hsteps : chars.length ≤ steps + 1) {frozen : List Path} {done : Fields Value}
    (hnew : key ∉ done.keys) (hfrozen : FrozenWithin frozen done) :
    inlineFields (steps + 3) frozen done (assignment (quotedChars key) chars ++ after) =
      match skipSpace after with
      | '}' :: rest => .ok (.table (done ++ [(key, v)]), rest)
      | ',' :: rest =>
          inlineFields (steps + 2) (if isCompound v then [key] :: frozen else frozen)
            (done ++ [(key, v)]) (skipSpace rest)
      | _ => malformed := by
  rw [inlineFields, field_assignment (namePart?_quotedChars key) h hafter hsteps]
  simp only [bind, Except.bind, addInline_of_new hnew hfrozen, required]
  rfl

/-- The tables already closed stay within the fields read so far when one more is read. -/
theorem frozenWithin_snoc {frozen : List Path} {done : Fields Value} (h : FrozenWithin frozen done)
    (key : String) (v : Value) :
    FrozenWithin (if isCompound v then [key] :: frozen else frozen) (done ++ [(key, v)]) := by
  have hold : FrozenWithin frozen (done ++ [(key, v)]) := by
    intro path hpath
    obtain ⟨other, hother, rfl⟩ := h path hpath
    exact ⟨other, by rw [Fields.keys_append]; exact List.mem_append_left _ hother, rfl⟩
  split
  · intro path hpath
    rcases List.mem_cons.mp hpath with rfl | hpath
    · exact ⟨key, by simp [Fields.keys], rfl⟩
    · exact hold path hpath
  · exact hold

/-- A field of an inline table, and the text that spells it. -/
def SpellsField (piece : List Char) (field : String × Value) : Prop :=
  ∃ chars, Spells chars field.2 ∧ piece = assignment (quotedChars field.1) chars

/-- A field's piece holds no carriage return. -/
theorem SpellsField.noReturn {piece : List Char} {field : String × Value}
    (h : SpellsField piece field) : '\r' ∉ piece := by
  obtain ⟨chars, hchars, rfl⟩ := h
  simp [assignment, return_not_mem_quotedChars, hchars.noReturn]

/-- **The fields of an inline table are read one after another.** -/
theorem inlineFields_row {pieces : List (List Char)} {fields : Fields Value}
    (h : List.Forall₂ SpellsField pieces fields) (hne : fields ≠ []) (rest : List Char)
    (done : Fields Value) (nodup : (Fields.keys (done ++ fields)).Nodup) {frozen : List Path}
    (hfrozen : FrozenWithin frozen done) (steps : Nat) (hsteps : (row pieces).length ≤ steps) :
    inlineFields steps frozen done (row pieces ++ ' ' :: '}' :: rest)
      = .ok (.table (done ++ fields), rest) := by
  induction h generalizing steps frozen done with
  | nil => exact absurd rfl hne
  | @cons piece field pieces others hpiece hothers ih =>
    obtain ⟨chars, hchars, rfl⟩ := hpiece
    have hnew : field.1 ∉ done.keys := by
      rw [Fields.keys_append] at nodup
      exact fun hdone => (List.nodup_append.mp nodup).2.2 _ hdone _ List.mem_cons_self rfl
    have hlength : (assignment (quotedChars field.1) chars).length
        = (quotedChars field.1).length + 3 + chars.length := by
      simp only [assignment, List.length_append, List.length_cons]
      omega
    have hquotes : 2 ≤ (quotedChars field.1).length := by
      simp [quotedChars]
    cases hothers with
    | nil =>
      rw [row_singleton] at hsteps ⊢
      obtain ⟨steps, rfl⟩ : ∃ n, steps = n + 3 := ⟨steps - 3, by omega⟩
      rw [inlineFields_assignment hchars (ended_of_cons (by decide) _) (by omega) hnew hfrozen]
      rfl
    | @cons next second pieces others hnext hothers =>
      rw [row_cons_cons] at hsteps ⊢
      simp only [List.length_append, List.length_cons] at hsteps
      obtain ⟨steps, rfl⟩ : ∃ n, steps = n + 3 := ⟨steps - 3, by omega⟩
      rw [List.append_cons] at nodup
      have hrest := ih (List.cons_ne_nil _ _) _ nodup
        (frozenWithin_snoc hfrozen field.1 field.2) (steps + 2) (by omega)
      rw [List.append_assoc, List.cons_append, List.cons_append,
        inlineFields_assignment hchars (ended_of_cons (by decide) _) (by omega) hnew hfrozen]
      have hskip : skipSpace (' ' :: (row (next :: pieces) ++ ' ' :: '}' :: rest))
          = row (next :: pieces) ++ ' ' :: '}' :: rest := by
        obtain ⟨chars, -, rfl⟩ := hnext
        exact skipSpace_space_cons ((begun_row (begun_assignment _ _) _).append _)
      show inlineFields _ _ _ (skipSpace (' ' :: _)) = _
      rw [hskip, hrest, ← List.append_cons]

/-- **The fields in braces spell the table**, when each piece spells its field and no two have the
same name. -/
theorem spells_table {pieces : List (List Char)} {fields : Fields Value}
    (h : List.Forall₂ SpellsField pieces fields) (nodup : fields.keys.Nodup) :
    Spells ('{' :: ' ' :: row pieces ++ [' ', '}']) (.table fields) := by
  have hreturn : '\r' ∉ row pieces := return_not_mem_row
    ((List.forall₂_and_left pieces fields).mp (h.imp fun _ _ hfield => ⟨hfield.noReturn, hfield⟩)).1
  refine spells_of_succ ⟨'{', rfl, by decide⟩ (by simp [hreturn]) fun steps rest _ hsteps => ?_
  simp only [List.length_append, List.length_cons, List.length_nil] at hsteps
  rw [List.cons_append, List.cons_append, List.cons_append, List.cons_append, List.append_assoc]
  cases h with
  | nil => rfl
  | @cons piece field pieces others hpiece hothers =>
    have hfrozen : FrozenWithin [] [] := fun _ hpath => nomatch hpath
    have hread := inlineFields_row (.cons hpiece hothers) (List.cons_ne_nil _ _) rest [] nodup
      hfrozen steps (by omega)
    have hbegun : Value.Begun (row (piece :: pieces) ++ ' ' :: '}' :: rest) := by
      obtain ⟨chars, -, rfl⟩ := hpiece
      exact (begun_row (begun_assignment _ _) _).append _
    rw [value]
    have hclosing : [' ', '}'] ++ rest = ' ' :: '}' :: rest := rfl
    rw [hclosing, skipSpace_space_cons hbegun]
    split
    · next heq =>
      rw [heq] at hbegun
      exact absurd hbegun (Value.not_begun_cons (by decide) _)
    · exact hread

/-! ## Written values -/

/-- The items of an array are written when each can be, piece by piece in order. -/
theorem exists_itemsChars {items : List Value}
    (h : ∀ v ∈ items, ∃ chars, valueChars v = .ok chars ∧ Spells chars v) :
    ∃ pieces, itemsChars items = .ok pieces ∧ List.Forall₂ Spells pieces items := by
  induction items with
  | nil => exact ⟨[], rfl, .nil⟩
  | cons v rest ih =>
    obtain ⟨chars, hwrite, hchars⟩ := h v List.mem_cons_self
    obtain ⟨pieces, hpieces, hrest⟩ := ih fun w hw => h w (List.mem_cons_of_mem v hw)
    refine ⟨chars :: pieces, ?_, .cons hchars hrest⟩
    rw [itemsChars, hwrite, hpieces]
    rfl

/-- The fields of a table are written when the value of each can be, piece by piece in order. -/
theorem exists_fieldsChars {fields : Fields Value}
    (h : ∀ field ∈ fields, ∃ chars, valueChars field.2 = .ok chars ∧ Spells chars field.2) :
    ∃ pieces, fieldsChars fields = .ok pieces ∧ List.Forall₂ SpellsField pieces fields := by
  induction fields with
  | nil => exact ⟨[], rfl, .nil⟩
  | cons field rest ih =>
    obtain ⟨chars, hwrite, hchars⟩ := h field List.mem_cons_self
    obtain ⟨pieces, hpieces, hrest⟩ := ih fun w hw => h w (List.mem_cons_of_mem field hw)
    refine ⟨assignment (quotedChars field.1) chars :: pieces, ?_, .cons ⟨chars, hchars, rfl⟩ hrest⟩
    rw [fieldsChars, hwrite, hpieces]
    show Except.ok ((quotedChars field.1 ++ " = ".toList ++ chars) :: pieces) = _
    rw [List.append_assoc]
    rfl

/-- **TOML reads back what it writes of a value.** -/
theorem exists_valueChars {v : Value} (h : v.Portable) :
    ∃ chars, valueChars v = .ok chars ∧ Spells chars v := by
  induction h with
  | text s => exact ⟨_, rfl, spells_text s⟩
  | bool b => exact ⟨_, rfl, spells_bool b⟩
  | int n short =>
    refine ⟨_, ?_, spells_int short⟩
    rw [valueChars, if_pos short]
  | list items all ih =>
    obtain ⟨pieces, hwrite, hpieces⟩ := exists_itemsChars ih
    refine ⟨_, ?_, spells_list hpieces⟩
    rw [valueChars, hwrite]
    rfl
  | table fields nodup all ih =>
    obtain ⟨pieces, hwrite, hpieces⟩ := exists_fieldsChars ih
    refine ⟨_, ?_, spells_table hpieces nodup⟩
    rw [valueChars, hwrite]
    rfl

end RuleCatalogue.Toml
